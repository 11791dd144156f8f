import Kollect.Controller.Debounce

/-
  The debounce baselines of all bindings (`perSinkCoalesceTracker` of
  `controller/per_sink_export.go`).

  A record drops the entries of other bindings that were idle for too long. `LastChanges` keeps the
  last record of every binding for ever; the tracker answers as it would. For one binding alone it
  is the baseline of `Kollect.Controller.Debounce`.

  Key theorems include:
    * `Tracker.shouldSkip_baseline`
    * `inStep_step`
    * `pruning_is_unobservable`
-/

namespace Kollect
namespace Controller

----
-- The Tracker
----

def hour : Int := 3600 * 1000000000

/- `validation.MaxExportInterval`. -/
def maxExportInterval : Int := 24 * hour

def coalesceStateTTL : Int := 2 * maxExportInterval

/- What an export is compared with. -/
structure ExportInputs where
  identity : SinkExportIdentity
  generation : Int
  checksum : Text
  requestedAt : Text
deriving DecidableEq

/- Times are counted from the zero time. -/
structure SinkCoalesceState where
  identity : SinkExportIdentity
  lastExport : Int
  lastChecksum : Text
  lastGeneration : Int
  lastRequestedAt : Text
  lastSkipped : Int

def SinkCoalesceState.inputs (state : SinkCoalesceState) : ExportInputs :=
  ⟨state.identity, state.lastGeneration, state.lastChecksum, state.lastRequestedAt⟩

abbrev Tracker := GoMap Text SinkCoalesceState

def trackerKey (invKey sinkName : Text) : Text := invKey ++ '\x00' :: sinkName

namespace Tracker

variable (t : Tracker) (key : Text) (inputs : ExportInputs)

def shouldSkip (interval now : Int) : Tracker × Bool :=
  match t.lookup key with
  | none => (t, false)
  | some state =>
    if state.lastGeneration ≠ inputs.generation then (t, false)
    else if state.identity ≠ inputs.identity then (t, false)
    else if state.lastChecksum ≠ inputs.checksum then (t, false)
    else if state.lastRequestedAt ≠ inputs.requestedAt then (t, false)
    else if interval = 0 then (t.insert key { state with lastSkipped := now }, true)
    else if state.lastExport = 0 then (t, false)
    else (t, decide (now - state.lastExport < interval))

/- What recorded no export and skipped none for too long. -/
def pruneStaleLocked (now : Int) (t : Tracker) : Tracker :=
  t.filterKeys fun key =>
    match t.lookup key with
    | none => false
    | some state => decide (now - max state.lastExport state.lastSkipped ≤ coalesceStateTTL)

def record (now : Int) : Tracker :=
  let t := pruneStaleLocked now t
  t.insert key
    { identity := inputs.identity
      lastExport := now
      lastChecksum := inputs.checksum
      lastGeneration := inputs.generation
      lastRequestedAt := inputs.requestedAt
      lastSkipped :=
        match t.lookup key with
        | none => 0
        | some state => state.lastSkipped }

def forget (t : Tracker) (key : Text) : Tracker := t.erase key

/- A state with other inputs is never skipped. -/
theorem shouldSkip_eq (interval now : Int) : t.shouldSkip key inputs interval now =
      match t.lookup key with
      | none => (t, false)
      | some state =>
        if state.inputs ≠ inputs then (t, false)
        else if interval = 0 then (t.insert key { state with lastSkipped := now }, true)
        else if state.lastExport = 0 then (t, false)
        else (t, decide (now - state.lastExport < interval)) := by
  unfold shouldSkip
  cases t.lookup key with
  | none => rfl
  | some state =>
    have hInputs : state.inputs = inputs ↔
        state.lastGeneration = inputs.generation ∧ state.identity = inputs.identity ∧
          state.lastChecksum = inputs.checksum ∧ state.lastRequestedAt = inputs.requestedAt := by
      unfold SinkCoalesceState.inputs
      rcases inputs with ⟨identity, generation, sum, at_⟩
      simp only [ExportInputs.mk.injEq]
      constructor
      · intro hAll
        exact ⟨hAll.2.1, hAll.1, hAll.2.2.1, hAll.2.2.2⟩
      · intro hAll
        exact ⟨hAll.2.1, hAll.1, hAll.2.2.1, hAll.2.2.2⟩
    dsimp only
    by_cases hSame : state.inputs = inputs
    · rcases hInputs.mp hSame with ⟨h₁, h₂, h₃, h₄⟩
      rw [if_neg (not_not.mpr h₁), if_neg (not_not.mpr h₂),
        if_neg (not_not.mpr h₃), if_neg (not_not.mpr h₄), if_neg (not_not.mpr hSame)]
    · rw [if_pos hSame]
      split_ifs with h₁ h₂ h₃ h₄
      · rfl
      · rfl
      · rfl
      · rfl
      all_goals
        exact absurd
          (hInputs.mpr ⟨not_not.mp h₁, not_not.mp h₂, not_not.mp h₃, not_not.mp h₄⟩) hSame

theorem lookup_record (t : Tracker) (key key' : Text) (inputs : ExportInputs) (now : Int) :
    (t.record key inputs now).lookup key' =
      if key' = key then
        some
          { identity := inputs.identity
            lastExport := now
            lastChecksum := inputs.checksum
            lastGeneration := inputs.generation
            lastRequestedAt := inputs.requestedAt
            lastSkipped :=
              match (pruneStaleLocked now t).lookup key with
              | none => 0
              | some state => state.lastSkipped }
      else (pruneStaleLocked now t).lookup key' := by
  exact GoMap.lookup_insert_ite _ _ _ _

theorem lookup_pruneStaleLocked (now : Int) (t : Tracker) (key : Text) :
    (pruneStaleLocked now t).lookup key = t.lookup key ∨
      (pruneStaleLocked now t).lookup key = none ∧ ∃ state, t.lookup key = some state ∧
          coalesceStateTTL < now - max state.lastExport state.lastSkipped := by
  unfold pruneStaleLocked
  rw [GoMap.lookup_filterKeys]
  cases hLook : t.lookup key with
  | none => simp
  | some state =>
    by_cases hFresh : now - max state.lastExport state.lastSkipped ≤ coalesceStateTTL
    · exact .inl (if_pos (decide_eq_true hFresh))
    · refine .inr ⟨if_neg ?_, state, rfl, by omega⟩
      rw [decide_eq_true_iff]
      exact hFresh

end Tracker

----
-- One Binding
----

/- The baseline of a binding by itself; the zero time is none. -/
def SinkCoalesceState.baseline (state : SinkCoalesceState) : CoalesceState Text where
  identity := state.identity
  lastExport := if state.lastExport = 0 then none else some state.lastExport
  lastChecksum := state.lastChecksum
  lastGeneration := state.lastGeneration
  lastRequestedAt := state.lastRequestedAt

def BindingState.inputs (b : BindingState) (checksum : Text) : ExportInputs :=
  ⟨b.identity, b.generation, checksum, b.requestedAt⟩

def Tracker.baseline (t : Tracker) (key : Text) : Option (CoalesceState Text) :=
  (t.lookup key).map SinkCoalesceState.baseline

section Baseline

variable (t : Tracker) (key : Text) (b : BindingState) (checksum : Text) (interval now : Int)

/- The answer is that of the baseline, and the check leaves the baseline as it is. -/
theorem Tracker.shouldSkip_baseline : (t.shouldSkip key (b.inputs checksum) interval now).2 =
        Controller.shouldSkip (t.baseline key) b checksum interval now ∧
      (t.shouldSkip key (b.inputs checksum) interval now).1.baseline key = t.baseline key := by
  unfold shouldSkip Controller.shouldSkip baseline BindingState.inputs
  cases hLook : t.lookup key with
  | none => exact ⟨rfl, by rw [hLook]⟩
  | some state =>
    simp only [Option.map_some, SinkCoalesceState.baseline]
    split_ifs <;> simp_all [SinkCoalesceState.baseline]

theorem Tracker.record_baseline (hNow : now ≠ 0) :
    (t.record key (b.inputs checksum) now).baseline key =
      some (Controller.record b checksum now) := by
  unfold baseline SinkCoalesceState.baseline
  rw [lookup_record, if_pos rfl, Option.map_some, if_neg hNow]
  rfl

theorem Tracker.forget_baseline : (t.forget key).baseline key = none := by
  unfold baseline forget
  rw [AList.lookup_erase]
  rfl

end Baseline

----
-- What The Bindings Did Last
----

/-
  The last record of each binding, if nothing forgot it since; its last skip check of interval zero;
  whether it was told to export and has not answered; and the clock.
-/
structure LastChanges where
  last : Text → Option (ExportInputs × Int)
  lastZero : Text → Int
  owing : Text → Bool
  clock : Int

inductive TrackerOp where
  | shouldSkip (key : Text) (inputs : ExportInputs) (interval now : Int)
  | record (key : Text) (inputs : ExportInputs) (now : Int)
  | forget (key : Text)

structure TrackerRun where
  tracker : Tracker
  changes : LastChanges

/- The answer that the last change of a binding asks for. -/
def Expected (changes : LastChanges) (key : Text) (inputs : ExportInputs)
    (interval now : Int) : Prop :=
  match changes.last key with
  | none => False
  | some (recorded, time) => recorded = inputs ∧ (interval = 0 ∨ now - time < interval)

namespace TrackerRun

def start : TrackerRun := ⟨∅, ⟨fun _ => none, fun _ => 0, fun _ => false, 0⟩⟩

def step (s : TrackerRun) : TrackerOp → TrackerRun
  | .shouldSkip key inputs interval now =>
    let (t, skip) := s.tracker.shouldSkip key inputs interval now
    { tracker := t
      changes :=
        { s.changes with
          lastZero :=
            if interval = 0 then Function.update s.changes.lastZero key now
            else s.changes.lastZero
          owing := Function.update s.changes.owing key !skip
          clock := now } }
  | .record key inputs now =>
    { tracker := s.tracker.record key inputs now
      changes :=
        { s.changes with
          last := Function.update s.changes.last key (some (inputs, now))
          owing := Function.update s.changes.owing key false
          clock := now } }
  | .forget key =>
    { tracker := s.tracker.forget key
      changes :=
        { s.changes with
          last := Function.update s.changes.last key none
          owing := Function.update s.changes.owing key false } }

/-
  How the reconcilers call the tracker. The clock does not go back; intervals are valid; a binding
  that was not skipped records or forgets before it is checked again; and one of interval zero is
  checked, skipped or recorded every so often.
-/
def Orderly (s : TrackerRun) : TrackerOp → Prop
  | .shouldSkip key _ interval now =>
    0 < now ∧ s.changes.clock ≤ now ∧ 0 ≤ interval ∧ interval ≤ maxExportInterval ∧
    s.changes.owing key = false ∧
    (interval = 0 → ∀ recorded time, s.changes.last key = some (recorded, time) →
        now ≤ max time (s.changes.lastZero key) + coalesceStateTTL)
  | .record _ _ now => 0 < now ∧ s.changes.clock ≤ now
  | .forget _ => True

/- A skip check answers what the last change asks for. -/
def Answers (s : TrackerRun) : TrackerOp → Prop
  | .shouldSkip key inputs interval now =>
    ((s.tracker.shouldSkip key inputs interval now).2 = true ↔
      Expected s.changes key inputs interval now)
  | _ => True

----
-- Pruning Is Unobservable
----

/- The entry of a binding is there, or too old to matter. -/
def Tracked (t : Tracker) (c : LastChanges) (key : Text) : Prop :=
  match c.last key with
  | none => t.lookup key = none
  | some (recorded, time) =>
    (∃ state, t.lookup key = some state ∧ state.inputs = recorded ∧ state.lastExport = time ∧
      c.lastZero key ≤ max time state.lastSkipped) ∨
    t.lookup key = none ∧ max time (c.lastZero key) + coalesceStateTTL < c.clock

structure InStep (s : TrackerRun) : Prop where
  tracked : ∀ key, s.changes.owing key = false → Tracked s.tracker s.changes key
  zero : ∀ key, s.changes.lastZero key ≤ s.changes.clock
  time : ∀ key recorded time, s.changes.last key = some (recorded, time) → 0 < time

theorem inStep_start : InStep start where
  tracked _ _ := rfl
  zero _ := le_rfl
  time _ _ _ h := nomatch h

theorem Tracked.later {t t' : Tracker} {c c' : LastChanges} {key : Text}
    (hTracked : Tracked t c key) (hLook : t'.lookup key = t.lookup key)
    (hLast : c'.last key = c.last key)
    (hZero : c'.lastZero key = c.lastZero key) (hClock : c.clock ≤ c'.clock) :
    Tracked t' c' key := by
  unfold Tracked at hTracked ⊢
  rw [hLast, hZero, hLook]
  cases hEntry : c.last key with
  | none =>
    rw [hEntry] at hTracked
    exact hTracked
  | some pair =>
    rw [hEntry] at hTracked
    rcases hTracked with hHere | ⟨hGone, hOld⟩
    · exact .inl hHere
    · exact .inr ⟨hGone, by omega⟩

theorem Tracked.prune {t : Tracker} {c : LastChanges} {key : Text}
    (hTracked : Tracked t c key) {now : Int} (hClock : c.clock ≤ now) :
    Tracked (t.pruneStaleLocked now) { c with clock := now }
      key := by
  rcases Tracker.lookup_pruneStaleLocked now t key with hKept | ⟨hGone, state, hLook, hStale⟩
  · exact hTracked.later hKept rfl rfl hClock
  · unfold Tracked at hTracked ⊢
    dsimp only
    rw [hGone]
    cases hEntry : c.last key with
    | none => rfl
    | some pair =>
      rw [hEntry] at hTracked
      rcases hTracked with ⟨state', hLook', -, hTime, hZero⟩ | ⟨hNone, -⟩
      · rw [hLook] at hLook'
        cases hLook'
        refine .inr ⟨rfl, ?_⟩
        rw [hTime] at hStale
        omega
      · rw [hLook] at hNone
        cases hNone

section Steps

variable {s : TrackerRun} {key : Text} {inputs : ExportInputs} {interval now : Int}

theorem answers_of_inStep (hIn : InStep s)
    (hOrderly : Orderly s (.shouldSkip key inputs interval now)) :
    (s.tracker.shouldSkip key inputs interval now).2 = true ↔
      Expected s.changes key inputs interval now := by
  rcases hOrderly with ⟨-, hClock, hLow, hHigh, hAnswered, hOften⟩
  have hTracked := hIn.tracked key hAnswered
  unfold Tracked at hTracked
  unfold Expected
  rw [Tracker.shouldSkip_eq]
  cases hLast : s.changes.last key with
  | none =>
    rw [hLast] at hTracked
    rw [hTracked]
    simp
  | some pair =>
    rcases pair with ⟨recorded, time⟩
    rw [hLast] at hTracked
    rcases hTracked with ⟨state, hLook, hInputs, hTime, -⟩ | ⟨hGone, hOld⟩
    · have hPos := hIn.time key recorded time hLast
      rw [hLook]
      dsimp only
      rw [hInputs, hTime]
      by_cases hSame : recorded = inputs
      · rw [if_neg (not_not.mpr hSame)]
        by_cases hZero : interval = 0
        · rw [if_pos hZero]
          simp [hSame, hZero]
        · rw [if_neg hZero, if_neg (by omega)]
          simp [hSame, hZero]
      · rw [if_pos hSame]
        simp [hSame]
    · -- dropped: the interval has passed long ago
      rw [hGone]
      simp only [Bool.false_eq_true, false_iff, not_and]
      intro _ hDue
      rcases hDue with hZero | hWithin
      · have hLate := hOften hZero recorded time hLast
        omega
      · unfold coalesceStateTTL at hOld
        have hDay : 0 < maxExportInterval := by decide
        omega

theorem inStep_shouldSkip (hIn : InStep s)
    (hOrderly : Orderly s (.shouldSkip key inputs interval now)) :
    InStep (s.step (.shouldSkip key inputs interval now)) := by
  have hAnswer := answers_of_inStep hIn hOrderly
  rcases hOrderly with ⟨hNow, hClock, -, -, hAnswered, -⟩
  have hLookOther : ∀ key', key' ≠ key →
      (s.tracker.shouldSkip key inputs interval now).1.lookup key' = s.tracker.lookup key' := by
    intro key' hNe
    rw [Tracker.shouldSkip_eq]
    cases s.tracker.lookup key with
    | none => rfl
    | some state =>
      dsimp only
      split_ifs
      · rfl
      · exact (GoMap.lookup_insert_ite _ _ _ _).trans (if_neg hNe)
      · rfl
      · rfl
  constructor
  · intro key' hOwes
    unfold step at hOwes ⊢
    dsimp only at hOwes ⊢
    by_cases hKey : key' = key
    · -- the answer was to skip
      subst hKey
      rw [Function.update_self, Bool.not_eq_false'] at hOwes
      have hExpected := hAnswer.mp hOwes
      have hTracked := hIn.tracked key' hAnswered
      unfold Expected at hExpected
      unfold Tracked at hTracked ⊢
      cases hLast : s.changes.last key' with
      | none =>
        rw [hLast] at hExpected
        exact absurd hExpected id
      | some pair =>
        rcases pair with ⟨recorded, time⟩
        rw [hLast] at hTracked hExpected
        rcases hTracked with ⟨state, hLook, hInputs, hTime, hZeroLe⟩ | ⟨hGone, -⟩
        · refine .inl ?_
          rw [Tracker.shouldSkip_eq, hLook]
          dsimp only
          rw [hInputs, if_neg (not_not.mpr hExpected.1)]
          by_cases hZero : interval = 0
          · rw [if_pos hZero, if_pos hZero, Function.update_self, GoMap.lookup_insert_ite,
              if_pos rfl]
            refine ⟨_, rfl, hInputs, hTime, ?_⟩
            dsimp only
            omega
          · rw [if_neg hZero, if_neg hZero]
            split_ifs
            · exact ⟨state, hLook, hInputs, hTime, hZeroLe⟩
            · exact ⟨state, hLook, hInputs, hTime, hZeroLe⟩
        · rw [Tracker.shouldSkip_eq, hGone] at hOwes
          cases hOwes
    · rw [Function.update_of_ne hKey] at hOwes
      refine (hIn.tracked key' hOwes).later (hLookOther key' hKey) rfl ?_ hClock
      split_ifs
      · exact Function.update_of_ne hKey _ _
      · rfl
  · intro key'
    have hOld := hIn.zero key'
    unfold step
    dsimp only
    split_ifs
    · rw [Function.update_apply]
      split_ifs
      · exact le_rfl
      · omega
    · omega
  · exact hIn.time

theorem inStep_record (hIn : InStep s) (hNow : 0 < now) (hClock : s.changes.clock ≤ now) :
    InStep (s.step (.record key inputs now)) := by
  constructor
  · intro key' hOwes
    unfold step at hOwes ⊢
    dsimp only at hOwes ⊢
    by_cases hKey : key' = key
    · subst hKey
      have hZero := hIn.zero key'
      unfold Tracked
      dsimp only
      rw [Function.update_self]
      refine .inl ⟨_, (Tracker.lookup_record _ _ _ _ _).trans (if_pos rfl), rfl, rfl, ?_⟩
      omega
    · rw [Function.update_of_ne hKey] at hOwes
      have hPruned := (hIn.tracked key' hOwes).prune hClock
      refine hPruned.later ((Tracker.lookup_record _ _ _ _ _).trans
        (if_neg hKey)) (Function.update_of_ne hKey _ _) rfl le_rfl
  · intro key'
    exact (hIn.zero key').trans hClock
  · intro key' recorded time hLast
    unfold step at hLast
    dsimp only at hLast
    rw [Function.update_apply] at hLast
    split_ifs at hLast
    · cases hLast
      exact hNow
    · exact hIn.time key' recorded time hLast

theorem inStep_forget (hIn : InStep s) : InStep (s.step (.forget key)) := by
  constructor
  · intro key' hOwes
    unfold step at hOwes ⊢
    dsimp only at hOwes ⊢
    by_cases hKey : key' = key
    · subst hKey
      unfold Tracked
      dsimp only
      rw [Function.update_self]
      exact (GoMap.lookup_erase_ite _ _ _).trans (if_pos rfl)
    · rw [Function.update_of_ne hKey] at hOwes
      exact (hIn.tracked key' hOwes).later ((GoMap.lookup_erase_ite _ _ _).trans (if_neg hKey))
        (Function.update_of_ne hKey _ _) rfl le_rfl
  · exact hIn.zero
  · intro key' recorded time hLast
    unfold step at hLast
    dsimp only at hLast
    rw [Function.update_apply] at hLast
    split_ifs at hLast
    exact hIn.time key' recorded time hLast

theorem inStep_step (s : TrackerRun) (op : TrackerOp) (hIn : InStep s) (hOrderly : Orderly s op) :
    InStep (s.step op) := by
  cases op with
  | shouldSkip key inputs interval now => exact inStep_shouldSkip hIn hOrderly
  | record key inputs now => exact inStep_record hIn hOrderly.1 hOrderly.2
  | forget key => exact inStep_forget hIn

end Steps

/-
  In a run of orderly calls every skip check answers what the last record or forget of its binding
  asks for.
-/
theorem pruning_is_unobservable
    {ops : List TrackerOp} (hOrderly : Run.Along step Orderly start ops) :
    Run.Along step Answers start ops := by
  have hInv := Run.along_invariant inStep_step inStep_start hOrderly
  apply hInv.imp
  intro s op hBoth
  cases op with
  | shouldSkip key inputs interval now => exact answers_of_inStep hBoth.1 hBoth.2
  | record | forget => trivial

def sampleInputs : ExportInputs := ⟨⟨['i'], ['s'], 1⟩, 1, ['c'], []⟩

/- A binding of interval zero that skips every two days, while another one records. -/
def quietBinding : List TrackerOp :=
  [.record ['a'] sampleInputs 1, .shouldSkip ['a'] sampleInputs 0 (48 * hour),
    .record ['b'] sampleInputs (90 * hour), .shouldSkip ['a'] sampleInputs 0 (96 * hour)]

theorem quiet_binding_is_answered :
    Run.Along step Orderly start quietBinding ∧ Run.Along step Answers start quietBinding := by
  have hOrderly : Run.Along step Orderly start quietBinding := by
    refine ⟨⟨by decide, by decide⟩, ?_, ⟨by decide, by decide⟩, ?_, True.intro⟩
    · refine ⟨by decide, by decide, by decide, by decide, rfl, ?_⟩
      intro _ recorded time hLast
      cases hLast
      decide
    · refine ⟨by decide, by decide, by decide, by decide, rfl, ?_⟩
      intro _ recorded time hLast
      cases hLast
      decide
  exact ⟨hOrderly, pruning_is_unobservable hOrderly⟩

end TrackerRun

end Controller
end Kollect
