import Kollect.Collect.Dispatch
import Kollect.Collect.Registry
import Mathlib.Data.List.Pairwise

/-
  An unregistration while dispatches are in flight (`UnregisterTarget` and `processDispatch` of
  `internal/collect/engine.go`).

  Any number of dispatches, each for its own resource, run their lock sections in any order with the
  two sections of the unregistration. Rows are written under a check of the registration; the marks
  of a target (a failed access review, a denied one, a failed extraction) are not.

  Key theorems include:
    * `exists_marked_of_not_silent`
    * `unregister_forgets_iff`
-/

namespace Kollect
namespace Collect

----
-- Marks
----

/- What an engine notes about a target beside its rows. -/
inductive Mark where
  | accessErr
  | forbidden
  | extractErr
deriving DecidableEq

def Engine.marked (e : Engine) (key : Text) : Mark → Bool
  | .accessErr => (e.accessErr.lookup key).isSome
  | .forbidden => (e.forbidden.lookup key).isSome
  | .extractErr => (e.extractErr.lookup key).isSome

/- The mark a section sets. -/
def Effect.sets : Effect → Option (Mark × Text)
  | .setAccessErr key => some (.accessErr, key)
  | .setForbidden key => some (.forbidden, key)
  | .recordExtractFailure key _ _ => some (.extractErr, key)
  | _ => none

/- The mark a section may remove. -/
def Effect.clears : Effect → Option (Mark × Text)
  | .clearAccessErr key => some (.accessErr, key)
  | .clearForbidden key => some (.forbidden, key)
  | .clearExtractFailure key _ => some (.extractErr, key)
  | _ => none

/- The mark a verdict leads to. -/
def Verdict.marks : Verdict → Option Mark
  | .reviewFailed => some .accessErr
  | .denied => some .forbidden
  | .unreadable _ => some .extractErr
  | _ => none

/- A later section does not remove what an earlier one set. -/
def Lasting (earlier later : Effect) : Prop :=
  ∀ mark, earlier.sets = some mark → later.clears ≠ some mark

section Marks

variable {e : Engine} {eff : Effect} {key : Text} {mark : Mark}

variable {V : Type}

theorem isSome_lookup_insert (m : GoMap Text V) (k : Text) (v : V) :
    ((m.insert k v).lookup k).isSome = true :=
  congrArg Option.isSome (AList.lookup_insert m)

theorem isSome_lookup_insert_ne (m : GoMap Text V) {k k' : Text} (v : V) (hNe : k' ≠ k) :
    ((m.insert k v).lookup k').isSome = (m.lookup k').isSome :=
  congrArg Option.isSome (AList.lookup_insert_ne hNe)

theorem isSome_lookup_erase_ne (m : GoMap Text V) {k k' : Text} (hNe : k' ≠ k) :
    ((m.erase k).lookup k').isSome = (m.lookup k').isSome :=
  congrArg Option.isSome (AList.lookup_erase_ne hNe)

theorem not_isSome_lookup_erase (m : GoMap Text V) (k : Text) :
    ((m.erase k).lookup k).isSome ≠ true := by
  rw [AList.lookup_erase]
  exact nofun

theorem extractErr_clearExtractFailure_ne (e : Engine) {key' : Text} (uid : Text)
    (hNe : key' ≠ key) :
    ((clearExtractFailure e key uid).extractErr.lookup
        key').isSome = (e.extractErr.lookup key').isSome := by
  unfold clearExtractFailure
  split
  · rfl
  · dsimp only
    split_ifs
    · exact isSome_lookup_erase_ne _ hNe
    · exact isSome_lookup_insert_ne _ _ hNe

theorem marked_upsertIfRegistered (e : Engine) (key key' : Text) (item : Item) (mark : Mark) :
    (upsertIfRegistered e key' item).marked key mark = e.marked key mark := by
  unfold upsertIfRegistered
  split_ifs
  · cases mark <;> rfl
  · rfl

theorem marked_of_sets (hSets : eff.sets = some (mark, key)) :
    (eff.apply e).marked key mark = true := by
  cases eff with
  | setAccessErr | setForbidden | recordExtractFailure =>
    cases hSets
    exact isSome_lookup_insert _ _ _
  | storeRemove | upsertIfRegistered | clearAccessErr | clearForbidden | clearExtractFailure =>
    cases hSets

theorem marked_of_clears (hClears : eff.clears = some (mark, key))
    (hMarked : (eff.apply e).marked key mark = true) : e.marked key mark = true := by
  cases eff with
  | clearAccessErr | clearForbidden =>
    cases hClears
    exact absurd hMarked (not_isSome_lookup_erase _ _)
  | clearExtractFailure key' uid =>
    cases hClears
    change ((clearExtractFailure e key uid).extractErr.lookup key).isSome = true at hMarked
    change (e.extractErr.lookup key).isSome = true
    unfold clearExtractFailure at hMarked
    split at hMarked
    · exact hMarked
    · rename_i st hLookup
      rw [hLookup]
      rfl
  | storeRemove | upsertIfRegistered | setAccessErr | setForbidden | recordExtractFailure =>
    cases hClears

theorem marked_of_untouched (hSets : eff.sets ≠ some (mark, key))
    (hClears : eff.clears ≠ some (mark, key)) :
    (eff.apply e).marked key mark = e.marked key mark := by
  have hOther : ∀ {key' : Text} {mark' : Mark},
      some (mark', key') ≠ some (mark, key) → mark' = mark → key ≠ key' :=
    fun hNe hMark hKey => hNe (by rw [hMark, hKey])
  cases eff with
  | storeRemove ns name uid => cases mark <;> rfl
  | upsertIfRegistered key' item => exact marked_upsertIfRegistered e key key' item mark
  | setAccessErr key' =>
    cases mark with
    | accessErr => exact isSome_lookup_insert_ne _ _ (hOther hSets rfl)
    | forbidden => rfl
    | extractErr => rfl
  | setForbidden key' =>
    cases mark with
    | accessErr => rfl
    | forbidden => exact isSome_lookup_insert_ne _ _ (hOther hSets rfl)
    | extractErr => rfl
  | recordExtractFailure key' uid err =>
    cases mark with
    | accessErr => rfl
    | forbidden => rfl
    | extractErr => exact isSome_lookup_insert_ne _ _ (hOther hSets rfl)
  | clearAccessErr key' =>
    cases mark with
    | accessErr => exact isSome_lookup_erase_ne _ (hOther hClears rfl)
    | forbidden => rfl
    | extractErr => rfl
  | clearForbidden key' =>
    cases mark with
    | accessErr => rfl
    | forbidden => exact isSome_lookup_erase_ne _ (hOther hClears rfl)
    | extractErr => rfl
  | clearExtractFailure key' uid =>
    rcases clearExtractFailure_eq e key' uid with ⟨failures, hFailures⟩
    cases mark with
    | accessErr | forbidden => rw [Effect.apply, hFailures]; rfl
    | extractErr => exact extractErr_clearExtractFailure_ne e uid (hOther hClears rfl)

/- A mark that is there was there before or was just set. -/
theorem sets_or_marked (hMarked : (eff.apply e).marked key mark = true) :
    eff.sets = some (mark, key) ∨ e.marked key mark = true := by
  by_cases hSets : eff.sets = some (mark, key)
  · exact .inl hSets
  · right
    by_cases hClears : eff.clears = some (mark, key)
    · exact marked_of_clears hClears hMarked
    · rw [← marked_of_untouched hSets hClears]
      exact hMarked

/- A mark that was there is there or was just removed. -/
theorem clears_or_marked (hMarked : e.marked key mark = true) :
    eff.clears = some (mark, key) ∨ (eff.apply e).marked key mark = true := by
  by_cases hClears : eff.clears = some (mark, key)
  · exact .inl hClears
  · right
    by_cases hSets : eff.sets = some (mark, key)
    · exact marked_of_sets hSets
    · rw [marked_of_untouched hSets hClears]
      exact hMarked

theorem marked_foldl_of_not_clears
    {effs : List Effect} (hKept : ∀ eff ∈ effs, eff.clears ≠ some (mark, key))
    (hMarked : e.marked key mark = true) : (effs.foldl Effect.apply e).marked key mark = true := by
  induction effs generalizing e with
  | nil => exact hMarked
  | cons eff effs ih =>
    rw [List.forall_mem_cons] at hKept
    exact ih hKept.2 ((clears_or_marked hMarked).resolve_left hKept.1)

/- A mark that is set in a list of sections stays to its end. -/
theorem marked_foldl {effs : List Effect} (hLasting : effs.Pairwise Lasting)
    (hMem : eff ∈ effs) (hSets : eff.sets = some (mark, key)) :
    (effs.foldl Effect.apply e).marked key mark = true := by
  induction effs generalizing e with
  | nil => cases hMem
  | cons first effs ih =>
    rw [List.pairwise_cons] at hLasting
    rw [List.foldl_cons]
    rcases List.mem_cons.mp hMem with rfl | hRest
    · exact marked_foldl_of_not_clears (fun later hLater => hLasting.1 later hLater _ hSets)
        (marked_of_sets hSets)
    · exact ih hLasting.2 hRest

end Marks

----
-- Sections Of A Verdict
----

section Sections

variable {st : TargetState} {uid key : Text} {v : Verdict} {mark : Mark}

/- The marks of an iteration are those of its verdict. -/
theorem sets_mem_sections_iff : (∃ eff ∈ sections st uid v, eff.sets = some (mark, key)) ↔
      key = keyOf st.target ∧ v.marks = some mark := by
  cases v <;> cases mark <;>
    simp [sections, Effect.sets, Verdict.marks, eq_comm]

theorem clears_mem_sections {eff : Effect} (hMem : eff ∈ sections st uid v)
    (hClears : eff.clears = some (mark, key)) : key = keyOf st.target := by
  cases v <;>
    simp only [sections, List.mem_cons, List.not_mem_nil, or_false] at hMem <;>
    rcases hMem with rfl | rfl | rfl | rfl <;>
    cases hClears <;> rfl

/- A verdict clears before it marks. -/
theorem lasting_sections : (sections st uid v).Pairwise Lasting := by
  cases v <;> simp [sections, Lasting, Effect.sets, Effect.clears]

end Sections

----
-- Dispatches In Flight
----

/-
  A run of `processDispatch`: the states of its snapshot that it has still to process and the
  sections of the current one that it has still to run.
-/
structure Flight where
  gvr : GroupVersionResource
  u : Unstructured
  job : DispatchJob
  states : List TargetState
  pending : List Effect

namespace Flight

variable (lib : Libraries) (pipe : Pipeline) (e : Engine) (f : Flight)

def done : Flight := { f with states := [], pending := [] }

/- The next section, or the decisions on the next state. -/
def next : Engine × Flight :=
  match f.pending, f.states with
  | eff :: pending, _ => (eff.apply e, { f with pending := pending })
  | [], st :: states =>
    (e, { f with states := states, pending := processState lib pipe e f.gvr f.u f.job st })
  | [], [] => (e, f)

/- All sections the run has still before it. -/
def rest : List Effect := f.pending ++ f.states.flatMap (processState lib pipe e f.gvr f.u f.job)

end Flight

/- The engine and the dispatches that were taken up. -/
structure Flights where
  engine : Engine
  flights : List Flight

/-
  A dispatch takes its snapshot or goes on. The calls of the engine come in between; an
  unregistration has two sections.
-/
inductive FlightLabel where
  | take (gvr : GroupVersionResource) (job : DispatchJob)
  | work (i : Nat)
  | register (call : RegisterCall)
  | unregister (namespace_ name : Text)
  | removeRows (namespace_ name : Text)

namespace Flights

def start (e : Engine) : Flights := ⟨e, []⟩

def step (lib : Libraries) (pipe : Pipeline) (s : Flights) : FlightLabel → Flights
  | .take gvr job =>
    match job.obj with
    | none => s
    | some u => { s with flights := s.flights ++ [⟨gvr, u, job, snapshot s.engine gvr, []⟩] }
  | .work i =>
    match s.flights[i]? with
    | none => s
    | some f => ⟨(f.next lib pipe s.engine).1, s.flights.set i (f.next lib pipe s.engine).2⟩
  | .register call => { s with engine := (call.outcome lib s.engine).engine }
  | .unregister ns name => { s with engine := unregisterLocked lib s.engine (targetKey ns name) }
  | .removeRows ns name =>
    { s with engine := { s.engine with store := s.engine.store.removeTarget ns name } }

section Steps

variable {lib : Libraries} {pipe : Pipeline} {s : Flights}

theorem step_work {i : Nat} {f : Flight} (hFlight : s.flights[i]? = some f) :
    s.step lib pipe (.work i) =
      ⟨(f.next lib pipe s.engine).1, s.flights.set i (f.next lib pipe s.engine).2⟩ := by
  simp only [step, hFlight]

theorem step_work_none {i : Nat} (hFlight : s.flights[i]? = none) :
    s.step lib pipe (.work i) = s := by
  simp only [step, hFlight]

variable {gvr : GroupVersionResource}

theorem step_take {job : DispatchJob} {u : Unstructured} (hObj : job.obj = some u) :
    s.step lib pipe (.take gvr job) = { s with flights :=
          s.flights ++ [⟨gvr, u, job, snapshot s.engine gvr, []⟩] } := by
  simp only [step, hObj]

theorem step_take_none {job : DispatchJob} (hObj : job.obj = none) :
    s.step lib pipe (.take gvr job) = s := by
  simp only [step, hObj]

end Steps

def Finished (s : Flights) : Prop := ∀ f ∈ s.flights, f.states = [] ∧ f.pending = []

end Flights

/- The engine holds nothing of the target. -/
structure Forgotten (e : Engine) (ns name : Text) : Prop where
  rows : ∀ uid, e.store.row? ns name uid = none
  marks : ∀ mark, e.marked (targetKey ns name) mark = false
  index : ∀ gvr, targetKey ns name ∉ e.keysFor gvr

/-
  No dispatch in flight is about to mark the target: it neither has the section before it nor, for a
  state of its snapshot, a verdict that leads to one.
-/
def Silent (lib : Libraries) (pipe : Pipeline) (s : Flights) (key : Text) : Prop :=
  ∀ f ∈ s.flights, (∀ eff ∈ f.pending, ∀ mark, eff.sets ≠ some (mark, key)) ∧
    ∀ st ∈ f.states, keyOf st.target = key →
      (verdict lib pipe s.engine f.gvr f.u f.job st).marks = none

/- The steps that run beside an unregistration. -/
def Beside (ns name : Text) : FlightLabel → Prop
  | .take _ _ => True
  | .work _ => True
  | .removeRows ns' name' => ns' = ns ∧ name' = name
  | _ => False

----
-- One Dispatch
----

section OneFlight

variable {lib : Libraries} {pipe : Pipeline} {e e' : Engine} {f : Flight}

theorem rest_congr (hMeta : e.nsMeta = e'.nsMeta) (f : Flight) :
    f.rest lib pipe e = f.rest lib pipe e' := by
  unfold Flight.rest
  rw [funext (processState_congr hMeta lib pipe f.gvr f.u f.job)]

theorem next_spec (lib : Libraries) (pipe : Pipeline) (e : Engine) (f : Flight) :
    ∃ effs, f.rest lib pipe e = effs ++ (f.next lib pipe e).2.rest lib pipe e ∧
        (f.next lib pipe e).1 = effs.foldl Effect.apply e := by
  rcases f with ⟨gvr, u, job, states, pending⟩
  cases pending with
  | cons eff pending => exact ⟨[eff], rfl, rfl⟩
  | nil =>
    cases states with
    | cons | nil => exact ⟨[], rfl, rfl⟩

theorem sameRegistry_foldl (effs : List Effect) (e : Engine) :
    SameRegistry (effs.foldl Effect.apply e) e := by
  induction effs using List.reverseRecOn with
  | nil => exact SameRegistry.refl e
  | append_singleton effs eff ih =>
    rw [List.foldl_append]
    exact sameRegistry_apply ih eff

theorem sameRegistry_next (lib : Libraries) (pipe : Pipeline) (e : Engine) (f : Flight) :
    SameRegistry (f.next lib pipe e).1 e := by
  rcases next_spec lib pipe e f with ⟨effs, -, hEngine⟩
  rw [hEngine]
  exact sameRegistry_foldl effs e

/-
  The snapshot has each key once, the sections before the run are of a state it has left behind, and
  a row is written under the key of its own target.
-/
structure Flight.Ok (f : Flight) : Prop where
  lasting : f.pending.Pairwise Lasting
  nodup : (f.states.map fun st => keyOf st.target).Nodup
  apart :
    ∀ eff ∈ f.pending, ∀ mark key,
      eff.sets = some (mark, key) → ∀ st ∈ f.states, keyOf st.target ≠ key
  owned :
    ∀ key item, Effect.upsertIfRegistered key item ∈ f.pending →
        key = targetKey item.targetNamespace item.targetName

theorem ok_next (hOk : f.Ok) : (f.next lib pipe e).2.Ok := by
  rcases f with ⟨gvr, u, job, states, pending⟩
  cases pending with
  | cons eff pending =>
    refine ⟨?_, hOk.nodup, ?_, ?_⟩
    · exact (List.pairwise_cons.mp hOk.lasting).2
    · exact fun eff' hMem => hOk.apart eff' (List.mem_cons_of_mem _ hMem)
    · exact fun key item hMem => hOk.owned key item (List.mem_cons_of_mem _ hMem)
  | nil =>
    cases states with
    | nil => exact hOk
    | cons st states =>
      have hNodup := List.nodup_cons.mp hOk.nodup
      refine ⟨lasting_sections, hNodup.2, ?_, ?_⟩
      · intro eff hMem mark key hSets st' hSt' hKey
        have hOwn := (sets_mem_sections_iff.mp ⟨eff, hMem, hSets⟩).1
        refine hNodup.1 (List.mem_map.mpr ⟨st', hSt', ?_⟩)
        exact hKey.trans hOwn
      · intro key item hMem
        rcases upsert_mem_processState hMem with ⟨hKey, hVerdict⟩
        rcases verdict_eq_collected hVerdict with ⟨-, attrs, -, hItem⟩
        rw [hKey, hItem]
        rfl

/- What is set in the rest of a run stays set to its end. -/
theorem lasting_rest (hOk : f.Ok) : (f.rest lib pipe e).Pairwise Lasting := by
  refine List.pairwise_append.mpr ⟨hOk.lasting, ?_, ?_⟩
  · refine List.pairwise_flatMap.mpr ⟨fun st _ => lasting_sections, ?_⟩
    refine (List.pairwise_map.mp hOk.nodup).imp ?_
    intro st st' hNe eff hEff eff' hEff' mark hSets hClears
    have hKey := (sets_mem_sections_iff.mp ⟨eff, hEff, hSets⟩).1
    have hKey' := clears_mem_sections hEff' hClears
    exact hNe (hKey.symm.trans hKey')
  · intro eff hEff eff' hEff' mark hSets hClears
    rcases List.mem_flatMap.mp hEff' with ⟨st, hSt, hMem⟩
    exact hOk.apart eff hEff mark.1 mark.2 hSets st hSt (clears_mem_sections hMem hClears).symm

/- The two parts of silence are one about the rest. -/
theorem silent_rest_iff {key : Text} :
    (∀ eff ∈ f.rest lib pipe e, ∀ mark, eff.sets ≠ some (mark, key)) ↔
      (∀ eff ∈ f.pending, ∀ mark, eff.sets ≠ some (mark, key)) ∧
      ∀ st ∈ f.states, keyOf st.target = key →
        (verdict lib pipe e f.gvr f.u f.job st).marks = none := by
  have hStates : (∀ eff ∈ f.states.flatMap (processState lib pipe e f.gvr f.u f.job),
          ∀ mark, eff.sets ≠ some (mark, key)) ↔
        ∀ st ∈ f.states, keyOf st.target = key →
          (verdict lib pipe e f.gvr f.u f.job st).marks = none := by
    constructor
    · intro hRest st hSt hKey
      rw [Option.eq_none_iff_forall_ne_some]
      intro mark hMarks
      rcases sets_mem_sections_iff.mpr ⟨hKey.symm, hMarks⟩ with ⟨eff, hMem, hSets⟩
      exact hRest eff (List.mem_flatMap.mpr ⟨st, hSt, hMem⟩) mark hSets
    · intro hVerdicts eff hMem mark hSets
      rcases List.mem_flatMap.mp hMem with ⟨st, hSt, hEff⟩
      rcases sets_mem_sections_iff.mp ⟨eff, hEff, hSets⟩ with ⟨hKey, hMarks⟩
      rw [hVerdicts st hSt hKey.symm] at hMarks
      cases hMarks
  unfold Flight.rest
  rw [List.forall_mem_append, hStates]

end OneFlight

----
-- Invariants
----

section Invariants

variable {lib : Libraries} {pipe : Pipeline} {e : Engine} {s : Flights} {ns name key : Text}

theorem nodup_snapshot (hIndexed : Indexed lib e) (gvr : GroupVersionResource) :
    ((snapshot e gvr).map fun st => keyOf st.target).Nodup := by
  unfold snapshot
  rw [List.map_filterMap]
  refine (hIndexed.nodup gvr).filterMap ?_
  intro key key' found hFound hFound'
  rcases Option.map_eq_some_iff.mp hFound with ⟨st, hSt, rfl⟩
  rcases Option.map_eq_some_iff.mp hFound' with ⟨st', hSt', hSame⟩
  rw [hIndexed.keyed key st hSt, hIndexed.keyed key' st' hSt', hSame]

structure Flights.Ok (lib : Libraries) (s : Flights) : Prop where
  indexed : Indexed lib s.engine
  flights : ∀ f ∈ s.flights, f.Ok

theorem ok_work (hOk : s.Ok lib) (i : Nat) : (s.step lib pipe (.work i)).Ok lib := by
  cases hFlight : s.flights[i]? with
  | none =>
    rw [Flights.step_work_none hFlight]
    exact hOk
  | some f =>
    rw [Flights.step_work hFlight]
    have hSame := sameRegistry_next lib pipe s.engine f
    refine ⟨hOk.indexed.congr hSame.targets hSame.targetsByGVR, ?_⟩
    intro g hG
    rcases List.mem_or_eq_of_mem_set hG with hOld | rfl
    · exact hOk.flights g hOld
    · exact ok_next (hOk.flights f (List.mem_of_getElem? hFlight))

theorem ok_step (s : Flights) (label : FlightLabel) (hOk : s.Ok lib) :
    (s.step lib pipe label).Ok lib := by
  cases label with
  | work i => exact ok_work hOk i
  | take gvr job =>
    cases hObj : job.obj with
    | none =>
      rw [Flights.step_take_none hObj]
      exact hOk
    | some u =>
      rw [Flights.step_take hObj]
      refine ⟨hOk.indexed, ?_⟩
      intro f hF
      rcases List.mem_append.mp hF with hOld | hNew
      · exact hOk.flights f hOld
      · rw [List.mem_singleton.mp hNew]
        exact ⟨List.Pairwise.nil, nodup_snapshot hOk.indexed gvr, List.forall_mem_nil _,
          fun key item hMem => absurd hMem List.not_mem_nil⟩
  | register call => exact ⟨indexed_outcome hOk.indexed call, hOk.flights⟩
  | unregister ns name => exact ⟨indexed_unregisterLocked hOk.indexed _, hOk.flights⟩
  | removeRows ns name => exact ⟨hOk.indexed.congr rfl rfl, hOk.flights⟩

/- What holds from the first section of an unregistration on. -/
structure Forgetting (lib : Libraries) (pipe : Pipeline) (key : Text) (s : Flights) : Prop where
  ok : s.Ok lib
  gone : s.engine.targets.lookup key = none
  clean : ∀ mark, s.engine.marked key mark = false
  silent : ∀ f ∈ s.flights, ∀ eff ∈ f.rest lib pipe s.engine, ∀ mark, eff.sets ≠ some (mark, key)

theorem not_mem_snapshot (hIndexed : Indexed lib e) (hGone : e.targets.lookup key = none)
    (gvr : GroupVersionResource) : ∀ st ∈ snapshot e gvr, keyOf st.target ≠ key := by
  intro st hMem hKey
  rcases List.mem_filterMap.mp hMem with ⟨key', -, hLookup⟩
  rw [hIndexed.keyed key' st hLookup, hKey, hGone] at hLookup
  cases hLookup

theorem clean_foldl {effs : List Effect}
    (hSilent : ∀ eff ∈ effs, ∀ mark, eff.sets ≠ some (mark, key))
    (hClean : ∀ mark, e.marked key mark = false) (mark : Mark) :
    (effs.foldl Effect.apply e).marked key mark = false := by
  induction effs generalizing e with
  | nil => exact hClean mark
  | cons eff effs ih =>
    rw [List.forall_mem_cons] at hSilent
    refine ih hSilent.2 fun mark => ?_
    rw [← Bool.not_eq_true]
    intro hMarked
    rcases sets_or_marked hMarked with hSets | hBefore
    · exact hSilent.1 mark hSets
    · rw [hClean mark] at hBefore
      cases hBefore

theorem forgetting_work (hInv : Forgetting lib pipe key s) (i : Nat) :
    Forgetting lib pipe key (s.step lib pipe (.work i)) := by
  have hOk : (s.step lib pipe (.work i)).Ok lib := ok_work hInv.ok i
  cases hFlight : s.flights[i]? with
  | none =>
    rw [Flights.step_work_none hFlight]
    exact hInv
  | some f =>
    rw [Flights.step_work hFlight] at hOk ⊢
    have hMem := List.mem_of_getElem? hFlight
    have hSame := sameRegistry_next lib pipe s.engine f
    rcases next_spec lib pipe s.engine f with ⟨effs, hRest, hEngine⟩
    have hSilent := hInv.silent f hMem
    rw [hRest, List.forall_mem_append] at hSilent
    refine ⟨hOk, ?_, ?_, ?_⟩
    · rw [hSame.targets]
      exact hInv.gone
    · rw [hEngine]
      exact clean_foldl hSilent.1 hInv.clean
    · intro g hG
      rw [rest_congr hSame.nsMeta]
      rcases List.mem_or_eq_of_mem_set hG with hOld | rfl
      · exact hInv.silent g hOld
      · exact hSilent.2

theorem forgetting_step (s : Flights) (label : FlightLabel)
    (hInv : Forgetting lib pipe (targetKey ns name) s) (hBeside : Beside ns name label) :
    Forgetting lib pipe (targetKey ns name) (s.step lib pipe label) := by
  have hOk : (s.step lib pipe label).Ok lib := ok_step s label hInv.ok
  cases label with
  | work i => exact forgetting_work hInv i
  | take gvr job =>
    cases hObj : job.obj with
    | none =>
      rw [Flights.step_take_none hObj]
      exact hInv
    | some u =>
      rw [Flights.step_take hObj] at hOk ⊢
      refine ⟨hOk, hInv.gone, hInv.clean, ?_⟩
      intro f hF
      rcases List.mem_append.mp hF with hOld | hNew
      · exact hInv.silent f hOld
      · rw [List.mem_singleton.mp hNew, silent_rest_iff]
        refine ⟨List.forall_mem_nil _, fun st hSt hKey => ?_⟩
        exact absurd hKey (not_mem_snapshot hInv.ok.indexed hInv.gone gvr st hSt)
  | removeRows ns' name' =>
    exact ⟨hOk, hInv.gone, fun mark => by
      rw [← hInv.clean mark]
      cases mark <;> rfl, hInv.silent⟩
  | register | unregister => exact hBeside.elim

theorem forgetting_unregister (hOk : s.Ok lib) (hSilent : Silent lib pipe s (targetKey ns name)) :
    Forgetting lib pipe (targetKey ns name) (s.step lib pipe (.unregister ns name)) := by
  refine ⟨ok_step s _ hOk, ?_, ?_, ?_⟩
  · exact (lookup_unregisterLocked lib s.engine _ _).trans (if_pos rfl)
  · intro mark
    cases mark <;>
      exact Bool.eq_false_iff.mpr (not_isSome_lookup_erase _ _)
  · intro f hF
    change ∀ eff ∈ f.rest lib pipe (unregisterLocked lib s.engine (targetKey ns name)), _
    rw [rest_congr (nsMeta_unregisterLocked lib s.engine _), silent_rest_iff]
    exact hSilent f hF

end Invariants

----
-- Silent Dispatches Leave Nothing
----

section Sufficiency

variable {lib : Libraries} {pipe : Pipeline} {e : Engine} {f : Flight} {s : Flights}
variable {ns name : Text}

/- No row is written for a target that is not registered. -/
theorem rows_next (hOk : f.Ok) (hGone : e.targets.lookup (targetKey ns name) = none)
    (hRows : ∀ uid, e.store.row? ns name uid = none) (uid : Text) :
    (f.next lib pipe e).1.store.row? ns name uid = none := by
  rcases f with ⟨gvr, u, job, states, pending⟩
  cases pending with
  | nil =>
    cases states with
    | nil | cons => exact hRows uid
  | cons eff pending =>
    refine (row?_apply e eff ns name uid).trans ?_
    rw [hRows uid]
    cases eff with
    | storeRemove ns' name' uid' => exact ite_self _
    | upsertIfRegistered key item =>
      refine if_neg ?_
      rintro ⟨hRegistered, rfl, rfl, -⟩
      rw [hOk.owned key item List.mem_cons_self, hGone] at hRegistered
      cases hRegistered
    | setAccessErr key => rfl
    | clearAccessErr key => rfl
    | setForbidden key => rfl
    | clearForbidden key => rfl
    | recordExtractFailure key uid' err => rfl
    | clearExtractFailure key uid' => rfl

/- Once the rows were removed they stay away. -/
theorem rows_step (s : Flights) (label : FlightLabel)
    (hInv : Forgetting lib pipe (targetKey ns name) s ∧
      ∀ uid, s.engine.store.row? ns name uid = none)
    (hBeside : Beside ns name label) :
    Forgetting lib pipe (targetKey ns name) (s.step lib pipe label) ∧
      ∀ uid, (s.step lib pipe label).engine.store.row? ns name uid = none := by
  refine ⟨forgetting_step s label hInv.1 hBeside, ?_⟩
  cases label with
  | work i =>
    cases hFlight : s.flights[i]? with
    | none =>
      rw [Flights.step_work_none hFlight]
      exact hInv.2
    | some f =>
      rw [Flights.step_work hFlight]
      exact rows_next (hInv.1.ok.flights f (List.mem_of_getElem? hFlight)) hInv.1.gone hInv.2
  | take gvr job =>
    cases hObj : job.obj with
    | none =>
      rw [Flights.step_take_none hObj]
      exact hInv.2
    | some u =>
      rw [Flights.step_take hObj]
      exact hInv.2
  | removeRows ns' name' =>
    intro uid
    refine (Store.row?_removeTarget _ _ _ _ _ _).trans ?_
    rw [hInv.2 uid]
    exact ite_self _
  | register | unregister => exact hBeside.elim

theorem forgotten_of_silent (hOk : s.Ok lib) (hSilent : Silent lib pipe s (targetKey ns name))
    {after : List FlightLabel} (hBeside : ∀ label ∈ after, Beside ns name label)
    (hRemoved : .removeRows ns name ∈ after) : Forgotten
      (Run.exec (Flights.step lib pipe) (s.step lib pipe (.unregister ns name)) after).engine
      ns name := by
  rcases List.append_of_mem hRemoved with ⟨early, late, rfl⟩
  rw [List.forall_mem_append, List.forall_mem_cons] at hBeside
  have hAlong : ∀ s {labels : List FlightLabel}, (∀ label ∈ labels, Beside ns name label) →
        Run.Along (Flights.step lib pipe) (fun _ => Beside ns name) s labels :=
    fun s labels hAll => Run.along_of_forall fun label hMem _ => hAll label hMem
  have hEarly := Run.exec_invariant forgetting_step (forgetting_unregister hOk hSilent)
    (hAlong _ hBeside.1)
  have hRemoved := forgetting_step _ _ hEarly hBeside.2.1
  have hLate := Run.exec_invariant rows_step
    ⟨hRemoved, fun uid => (Store.row?_removeTarget _ _ _ _ _ _).trans (if_pos ⟨rfl, rfl⟩)⟩
    (hAlong _ hBeside.2.2)
  rw [Run.exec_append, Run.exec_cons]
  refine ⟨hLate.2, hLate.1.clean, fun gvr hMem => ?_⟩
  rcases hLate.1.ok.indexed.registered gvr _ hMem with ⟨st, hLookup, -⟩
  rw [hLate.1.gone] at hLookup
  cases hLookup

end Sufficiency

----
-- A Mark That Comes Late Stays
----

section Necessity

variable {lib : Libraries} {pipe : Pipeline} {s : Flights} {f : Flight} {i : Nat}

/- The dispatch of index `i` can be run to its end by itself. -/
def Finishes (lib : Libraries) (pipe : Pipeline) (s : Flights) (i : Nat) (f : Flight) : Prop :=
  ∃ n, Run.exec (Flights.step lib pipe) s (List.replicate n (.work i)) =
      ⟨(f.rest lib pipe s.engine).foldl Effect.apply s.engine, s.flights.set i f.done⟩

theorem done_next (e : Engine) (f : Flight) : (f.next lib pipe e).2.done = f.done := by
  rcases f with ⟨gvr, u, job, states, pending⟩
  cases pending with
  | cons eff pending => rfl
  | nil => cases states <;> rfl

theorem finishes_of_next (hFlight : s.flights[i]? = some f)
    (hNext : Finishes lib pipe (s.step lib pipe (.work i)) i (f.next lib pipe s.engine).2) :
    Finishes lib pipe s i f := by
  rcases hNext with ⟨n, hExec⟩
  refine ⟨n + 1, ?_⟩
  rcases next_spec lib pipe s.engine f with ⟨effs, hRest, hEngine⟩
  rw [List.replicate_succ, Run.exec_cons, hExec, Flights.step_work hFlight]
  rw [List.set_set, done_next, hRest, List.foldl_append, ← hEngine,
    rest_congr (sameRegistry_next lib pipe s.engine f).nsMeta]

theorem getElem?_step_work (hFlight : s.flights[i]? = some f) :
    (s.step lib pipe (.work i)).flights[i]? = some (f.next lib pipe s.engine).2 := by
  rw [Flights.step_work hFlight]
  exact List.getElem?_set_self (List.getElem?_eq_some_iff.mp hFlight).1

theorem finishes (hFlight : s.flights[i]? = some f) : Finishes lib pipe s i f := by
  rcases f with ⟨gvr, u, job, states, pending⟩
  -- the states are processed in order, each of them section by
  -- section
  induction states generalizing s pending with
  | nil =>
    induction pending generalizing s with
    | nil =>
      refine ⟨0, ?_⟩
      rcases List.getElem?_eq_some_iff.mp hFlight with ⟨hLt, hGet⟩
      have hSame : s.flights.set i ⟨gvr, u, job, [], []⟩ = s.flights := by
        rw [← hGet, List.set_getElem_self]
      exact congrArg (Flights.mk s.engine) hSame.symm
    | cons eff pending ih => exact finishes_of_next hFlight (ih (getElem?_step_work hFlight))
  | cons st states ihStates =>
    induction pending generalizing s with
    | nil => exact finishes_of_next hFlight (ihStates _ (getElem?_step_work hFlight))
    | cons eff pending ih => exact finishes_of_next hFlight (ih (getElem?_step_work hFlight))

/- The dispatches below `k`, but for `i`, have finished. -/
def FinishedBelow (k i : Nat) (s : Flights) : Prop :=
  ∀ j f, j < k → j ≠ i → s.flights[j]? = some f → f.states = [] ∧ f.pending = []

/- The other dispatches can be run to their ends first. -/
theorem exists_finish_others (s : Flights) (i k : Nat) :
    ∃ labels : List FlightLabel, (∀ label ∈ labels, ∃ j, label = .work j) ∧
        SameRegistry (Run.exec (Flights.step lib pipe) s labels).engine s.engine ∧
        (Run.exec (Flights.step lib pipe) s labels).flights[i]? = s.flights[i]? ∧
        (Run.exec (Flights.step lib pipe) s labels).flights.length = s.flights.length ∧
        FinishedBelow k i (Run.exec (Flights.step lib pipe) s labels) := by
  induction k with
  | zero =>
    exact ⟨[], List.forall_mem_nil _, SameRegistry.refl _, rfl, rfl,
      fun j f hLt => absurd hLt (Nat.not_lt_zero j)⟩
  | succ k ih =>
    rcases ih with ⟨labels, hWork, hSame, hKept, hLength, hBelow⟩
    generalize hExec : Run.exec (Flights.step lib pipe) s labels = t at *
    by_cases hI : k = i
    · refine ⟨labels, hWork, ?_⟩
      rw [hExec]
      refine ⟨hSame, hKept, hLength, ?_⟩
      intro j f hLt hNe
      exact hBelow j f (by omega) hNe
    cases hFlight : t.flights[k]? with
    | none =>
      refine ⟨labels, hWork, ?_⟩
      rw [hExec]
      refine ⟨hSame, hKept, hLength, ?_⟩
      intro j f hLt hNe hF
      by_cases hJ : j = k
      · rw [hJ, hFlight] at hF
        cases hF
      · exact hBelow j f (by omega) hNe hF
    | some g =>
      have hFinishes : Finishes lib pipe t k g := finishes hFlight
      rcases hFinishes with ⟨n, hFinish⟩
      refine ⟨labels ++ List.replicate n (.work k), ?_, ?_⟩
      · intro label hMem
        rcases List.mem_append.mp hMem with hOld | hNew
        · exact hWork label hOld
        · exact ⟨k, (List.mem_replicate.mp hNew).2⟩
      rw [Run.exec_append, hExec, hFinish]
      refine ⟨?_, ?_, ?_, ?_⟩
      · exact (sameRegistry_foldl _ _).trans hSame
      · exact (List.getElem?_set_ne hI).trans hKept
      · exact List.length_set.trans hLength
      · intro j f hLt hNe hF
        by_cases hJ : j = k
        · subst hJ
          rw [List.getElem?_set_self (List.getElem?_eq_some_iff.mp hFlight).1] at hF
          rw [← Option.some.inj hF]
          exact ⟨rfl, rfl⟩
        · rw [List.getElem?_set_ne (Ne.symm hJ)] at hF
          exact hBelow j f (by omega) hNe hF

/- A dispatch that is about to mark the target can be the last one to go on. -/
theorem exists_marked_of_not_silent {ns name : Text} (hOk : s.Ok lib)
    (hLoud : ¬ Silent lib pipe s (targetKey ns name)) :
    ∃ after : List FlightLabel, (∀ label ∈ after, Beside ns name label) ∧
        .removeRows ns name ∈ after ∧
        (Run.exec (Flights.step lib pipe) (s.step lib pipe (.unregister ns name)) after).Finished ∧
        ∃ mark, (Run.exec (Flights.step lib pipe) (s.step lib pipe (.unregister ns name))
            after).engine.marked (targetKey ns name) mark = true := by
  have hEffect : ∃ f ∈ s.flights, ∃ eff ∈
      f.rest lib pipe s.engine, ∃ mark, eff.sets = some (mark, targetKey ns name) := by
    by_contra hNone
    push Not at hNone
    exact hLoud fun f hF => silent_rest_iff.mp (hNone f hF)
  rcases hEffect with ⟨f, hF, eff, hEff, mark, hSets⟩
  rcases List.mem_iff_getElem?.mp hF with ⟨i, hFlight⟩
  let t : Flights := (s.step lib pipe (.unregister ns name)).step lib pipe (.removeRows ns name)
  have hMeta : t.engine.nsMeta = s.engine.nsMeta :=
    nsMeta_unregisterLocked lib s.engine (targetKey ns name)
  rcases exists_finish_others t i t.flights.length with
    ⟨labels, hWork, hSame, hKept, hLength, hBelow⟩
  have hLast : Finishes lib pipe (Run.exec (Flights.step lib pipe) t labels) i f :=
    finishes (hKept.trans hFlight)
  rcases hLast with ⟨n, hFinish⟩
  refine ⟨.removeRows ns name :: (labels ++ List.replicate n (.work i)), ?_,
    List.mem_cons_self, ?_, mark, ?_⟩
  · refine List.forall_mem_cons.mpr ⟨⟨rfl, rfl⟩, ?_⟩
    refine List.forall_mem_append.mpr ⟨fun label hMem => ?_, fun label hMem => ?_⟩
    · rcases hWork label hMem with ⟨j, rfl⟩
      trivial
    · rw [(List.mem_replicate.mp hMem).2]
      trivial
  · change (Run.exec _ t (labels ++ _)).Finished
    rw [Run.exec_append, hFinish]
    intro g hG
    rcases List.mem_iff_getElem?.mp hG with ⟨j, hJ⟩
    by_cases hNe : j = i
    · subst hNe
      rw [List.getElem?_set_self (List.getElem?_eq_some_iff.mp (hKept.trans hFlight)).1] at hJ
      rw [← Option.some.inj hJ]
      exact ⟨rfl, rfl⟩
    · rw [List.getElem?_set_ne (Ne.symm hNe)] at hJ
      have hLt := (List.getElem?_eq_some_iff.mp hJ).1
      exact hBelow j g (hLength ▸ hLt) hNe hJ
  · change (Run.exec _ t (labels ++ _)).engine.marked _ _ = true
    rw [Run.exec_append, hFinish]
    refine marked_foldl (lasting_rest (hOk.flights f hF)) ?_ hSets
    rw [rest_congr (hSame.nsMeta.trans hMeta)]
    exact hEff

end Necessity

----
-- Unregistration
----

/-
  However the dispatches in flight go on beside it, an unregistration leaves nothing of the target
  exactly when none of them is about to mark it.
-/
theorem unregister_forgets_iff (lib : Libraries) (pipe : Pipeline) {e : Engine}
    (hIndexed : Indexed lib e) (before : List FlightLabel) (ns name : Text) :
    let s := Run.exec (Flights.step lib pipe) (Flights.start e) before
    (∀ after : List FlightLabel, (∀ label ∈ after, Beside ns name label) →
        .removeRows ns name ∈ after →
        (Run.exec (Flights.step lib pipe) (s.step lib pipe (.unregister ns name)) after).Finished →
        Forgotten (Run.exec (Flights.step lib pipe) (s.step lib pipe (.unregister ns name))
            after).engine ns name) ↔
      Silent lib pipe s (targetKey ns name) := by
  intro s
  have hOk : s.Ok lib :=
    Run.exec_preserves ok_step ⟨hIndexed, fun f hF => absurd hF List.not_mem_nil⟩ before
  constructor
  · intro hForgets
    by_contra hLoud
    rcases exists_marked_of_not_silent hOk hLoud with
      ⟨after, hBeside, hRemoved, hFinished, mark, hMarked⟩
    have hClean := (hForgets after hBeside hRemoved hFinished).marks mark
    rw [hMarked] at hClean
    cases hClean
  · intro hSilent after hBeside hRemoved _
    exact forgotten_of_silent hOk hSilent hBeside hRemoved

theorem indexed_deploymentsEngine : Indexed Libraries.plain deploymentsEngine := by
  have hFresh : Indexed Libraries.plain (Engine.fresh twoNamespaces) := by
    refine ⟨?_, ?_, fun gvr => List.nodup_nil⟩
    · intro key st hLookup
      cases hLookup
    · intro gvr key hMem
      exact absurd hMem List.not_mem_nil
  exact indexed_outcome hFresh
    ⟨targetIncluding [("team-a" : Text)], deploymentProfile, noOptions, none⟩

/- The dispatch has decided to collect its object. -/
def collecting : List FlightLabel := [.take deploymentsGVR (teamEvent false), .work 0]

theorem collecting_dispatch_is_forgotten :
    let s := Run.exec (Flights.step Libraries.plain Pipeline.plain)
      (Flights.start deploymentsEngine) collecting
    ¬ s.Finished ∧ ∀ after : List FlightLabel,
        (∀ label ∈ after, Beside "team-a" "deployments" label) →
        .removeRows "team-a" "deployments" ∈ after →
        (Run.exec (Flights.step Libraries.plain Pipeline.plain)
          (s.step Libraries.plain Pipeline.plain (.unregister "team-a" "deployments"))
          after).Finished →
        Forgotten (Run.exec (Flights.step Libraries.plain Pipeline.plain)
            (s.step Libraries.plain Pipeline.plain (.unregister "team-a" "deployments"))
            after).engine "team-a" "deployments" := by
  intro s
  have hDecided : (s.flights.all fun f =>
      f.states.isEmpty && !f.pending.isEmpty &&
        f.pending.all fun eff => eff.sets.isNone) = true := by
    decide +kernel
  have hFlights : s.flights ≠ [] := by decide +kernel
  have hEach : ∀ f ∈ s.flights, f.states = [] ∧
      f.pending ≠ [] ∧ ∀ eff ∈ f.pending, eff.sets = none := by
    simpa [and_assoc] using hDecided
  constructor
  · intro hFinished
    rcases List.exists_mem_of_ne_nil _ hFlights with ⟨f, hF⟩
    exact (hEach f hF).2.1 (hFinished f hF).2
  · apply (unregister_forgets_iff Libraries.plain
      Pipeline.plain indexed_deploymentsEngine collecting "team-a" "deployments").mpr
    intro f hF
    rcases hEach f hF with ⟨hStates, -, hSets⟩
    rw [hStates]
    refine ⟨fun eff hEff mark => ?_, List.forall_mem_nil _⟩
    rw [hSets eff hEff]
    exact (Option.some_ne_none _).symm

/- An event whose access review ends as given. -/
def reviewedEvent (access : AccessResult) : DispatchJob :=
  { teamEvent false with access := fun _ => access }

/- A pipeline that reads no object. -/
def Pipeline.unreadable : Pipeline := { Pipeline.plain with extract := fun _ _ => .error "no" }

/- The target is unregistered after the snapshot was taken. -/
def lateRun (pipe : Pipeline) (job : DispatchJob) : Flights :=
  Run.exec (Flights.step Libraries.plain pipe) (Flights.start deploymentsEngine)
    [.take deploymentsGVR job, .unregister "team-a" "deployments",
      .removeRows "team-a" "deployments", .work 0, .work 0, .work 0, .work 0, .work 0]

/-
  The dispatch has finished and the target is gone, but the engine still notes a failed review, a
  denied one or a failed extraction of it.
-/
theorem late_dispatch_marks_target :
    ((lateRun Pipeline.plain (reviewedEvent .failed)).Finished ∧ (lateRun Pipeline.plain
        (reviewedEvent .failed)).engine.marked "team-a/deployments" .accessErr = true) ∧
    ((lateRun Pipeline.plain (reviewedEvent .denied)).Finished ∧ (lateRun Pipeline.plain
        (reviewedEvent .denied)).engine.marked "team-a/deployments" .forbidden = true) ∧
    ((lateRun Pipeline.unreadable (teamEvent false)).Finished ∧ (lateRun Pipeline.unreadable
        (teamEvent false)).engine.marked "team-a/deployments" .extractErr = true) := by
  refine ⟨⟨?_, by decide +kernel⟩, ⟨?_, by decide +kernel⟩, ?_, by decide +kernel⟩
  · intro f hF
    cases List.mem_singleton.mp hF
    exact ⟨rfl, rfl⟩
  · intro f hF
    cases List.mem_singleton.mp hF
    exact ⟨rfl, rfl⟩
  · intro f hF
    cases List.mem_singleton.mp hF
    exact ⟨rfl, rfl⟩

end Collect
end Kollect
