import Kollect.Controller.Coalesce

/-
  The export passes of one inventory over all its bindings, and what they leave in the status
  (`controller/kollectinventory_controller.go`, `controller/per_sink_export.go`).

  A pass writes the entries of all bindings anew; what it does not change is carried over from the
  status it has read. A first look may find all bindings up to date. Otherwise each binding fails,
  is left alone or becomes a job; jobs finish in any order. The status write comes last and may
  fail.

  Key theorems include:
    * `entries_record_last_export`
    * `debounced_exports_are_persisted`
-/

namespace Kollect
namespace Controller

----
-- Status Entries
----

structure ExportError where
  message : Text
  spillRequired : Bool
deriving DecidableEq

inductive SyncReason where
  | exported
  | debounced
  | exportFailed
  | spillRequired
deriving DecidableEq, Repr

structure SyncedCondition where
  status : Bool
  reason : SyncReason
  observedGeneration : Int
deriving DecidableEq

/- An entry of `status.sinkExports`. -/
structure SinkExportStatus where
  name : Text
  lastExportTime : Option Int
  lastChecksum : Text
  lastExportPaths : List Text
  synced : Option SyncedCondition
deriving DecidableEq

def findEntry (entries : List SinkExportStatus) (name : Text) : Option SinkExportStatus :=
  entries.find? fun entry => entry.name == name

/- A new entry, with what the previous one of its name has. -/
def carryOverSinkExport (previous : List SinkExportStatus) (exportKey : Text) : SinkExportStatus :=
  match findEntry previous exportKey with
  | none => ⟨exportKey, none, [], [], none⟩
  | some seed => { seed with name := exportKey }

def maxRecordedExportPaths : Nat := 32

/- Sorted, each once, the first ones; or those before. -/
def recordExportPaths (written previous : List Text) : List Text :=
  if written = [] then previous
  else (Text.sort written.dedup).take maxRecordedExportPaths

def sinkExportFailureReason (err : ExportError) : SyncReason :=
  if err.spillRequired then .spillRequired else .exportFailed

def setSinkExportSynced (entry : SinkExportStatus) (generation : Int) (ok : Bool)
    (reason : SyncReason) : SinkExportStatus :=
  { entry with synced := some ⟨ok, reason, generation⟩ }

----
-- A Pass
----

/- A sink object, with the interval that holds for a binding. -/
structure ResolvedSink where
  uid : Text
  generation : Int
  interval : Int
deriving DecidableEq

/-
  What a pass meets at a binding: the sink, the checksum of the parts, and what an export would come
  to.
-/
structure SinkBinding where
  exportKey : Text
  resolved : Except ExportError ResolvedSink
  checksum : Except ExportError Text
  export_ : Except ExportError (List Text)
  exportedAt : Int
deriving DecidableEq

/- An export that is due. -/
structure SinkJob where
  binding : SinkBinding
  inputs : ExportInputs
deriving DecidableEq

/-
  A pass. `arrange` is the order in which its jobs finish; `stale` is an old status, if it has read
  one. The write of a stale status is refused.
-/
structure InventoryPass where
  inventoryUID : Text
  generation : Int
  requestedAt : Text
  now : Int
  fingerprint : Text
  bindings : List SinkBinding
  arrange : List SinkJob → List SinkJob
  stale : Option (List SinkExportStatus)
  written : Bool
  nodup : (bindings.map SinkBinding.exportKey).Nodup
  arranged : ∀ jobs, (arrange jobs).Perm jobs
  fresh : written = true → stale = none

structure PerSinkExportOutcome where
  exportedCount : Nat
  debouncedCount : Nat
  failedSinks : List Text
  sinkExports : List SinkExportStatus
  exportedSinks : List Text

structure PassState where
  tracker : Tracker
  outcome : PerSinkExportOutcome
  jobs : List SinkJob

inductive Verdict where
  | failed (err : ExportError)
  | debounced (inputs : ExportInputs) (interval : Int)
  | due (inputs : ExportInputs)

section Pass

variable (invKey : Text) (p : InventoryPass)

def inputsOf (sink : ResolvedSink) (checksum : Text) : ExportInputs :=
  ⟨⟨p.inventoryUID, sink.uid, sink.generation⟩, p.generation, checksum, p.requestedAt⟩

/- What the loop over the bindings finds. -/
def verdict (t : Tracker) (b : SinkBinding) : Verdict :=
  match b.resolved with
  | .error err => .failed err
  | .ok sink =>
    match b.checksum with
    | .error err => .failed err
    | .ok checksum =>
      let inputs := inputsOf p sink checksum
      if (t.shouldSkip (trackerKey invKey b.exportKey) inputs sink.interval p.now).2 then
        .debounced inputs sink.interval
      else .due inputs

variable (outcome : PerSinkExportOutcome)

/- `addSinkFailure`, with the entry already in place. -/
def addSinkFailure (exportKey : Text) : PerSinkExportOutcome :=
  { outcome with failedSinks := outcome.failedSinks ++ [exportKey] }

def addEntry (entry : SinkExportStatus) : PerSinkExportOutcome :=
  { outcome with sinkExports := outcome.sinkExports ++ [entry] }

def changeEntry (exportKey : Text)
    (change : SinkExportStatus → SinkExportStatus) : PerSinkExportOutcome :=
  { outcome with
    sinkExports := outcome.sinkExports.map fun entry =>
      if entry.name = exportKey then change entry else entry }

def failedEntry (err : ExportError) (entry : SinkExportStatus) : SinkExportStatus :=
  setSinkExportSynced entry p.generation false (sinkExportFailureReason err)

def debouncedEntry (entry : SinkExportStatus) : SinkExportStatus :=
  setSinkExportSynced entry p.generation true .debounced

def exportedEntry (inputs : ExportInputs) (written : List Text) (time : Int)
    (entry : SinkExportStatus) : SinkExportStatus :=
  setSinkExportSynced
    { entry with
      lastExportTime := some time
      lastChecksum := inputs.checksum
      lastExportPaths := recordExportPaths written entry.lastExportPaths }
    p.generation true .exported

variable (previous : List SinkExportStatus)

def planBinding (s : PassState) (b : SinkBinding) : PassState :=
  let key := trackerKey invKey b.exportKey
  let entry := carryOverSinkExport previous b.exportKey
  match verdict invKey p s.tracker b with
  | .failed err =>
    { s with
      tracker := s.tracker.forget key
      outcome := addSinkFailure (addEntry s.outcome (failedEntry p err entry)) b.exportKey }
  | .debounced inputs interval =>
    { s with
      tracker := (s.tracker.shouldSkip key inputs interval p.now).1
      outcome :=
        { addEntry s.outcome (debouncedEntry p entry) with
          debouncedCount := s.outcome.debouncedCount + 1 } }
  | .due inputs =>
    { s with outcome := addEntry s.outcome entry, jobs := s.jobs ++ [SinkJob.mk b inputs] }

def finishJob (s : PassState) (job : SinkJob) : PassState :=
  let exportKey := job.binding.exportKey
  let key := trackerKey invKey exportKey
  match job.binding.export_ with
  | .error err =>
    { s with
      tracker := s.tracker.forget key
      outcome := addSinkFailure (changeEntry s.outcome exportKey (failedEntry p err)) exportKey }
  | .ok written =>
    { s with
      tracker := s.tracker.record key job.inputs p.now
      outcome :=
        { changeEntry s.outcome exportKey
            (exportedEntry p job.inputs written job.binding.exportedAt) with
          exportedCount := s.outcome.exportedCount + 1
          exportedSinks := s.outcome.exportedSinks ++ [exportKey] } }

def emptyOutcome : PerSinkExportOutcome := ⟨0, 0, [], [], []⟩

def exportToSinks (t : Tracker) : Tracker × PerSinkExportOutcome :=
  let planned := p.bindings.foldl (planBinding invKey p previous) ⟨t, emptyOutcome, []⟩
  let done := (p.arrange planned.jobs).foldl (finishJob invKey p) planned
  (done.tracker, done.outcome)

def isTotalExportFailure : Bool :=
  outcome.failedSinks ≠ [] && outcome.exportedCount == 0 && outcome.debouncedCount == 0

/- Binding after binding, as long as they are up to date. -/
def previewLoop : List SinkBinding → Tracker → Tracker × Bool
  | [], t => (t, true)
  | b :: bindings, t =>
    match b.resolved with
    | .error _ => (t, false)
    | .ok sink =>
      let (t, skip) := t.shouldSkip (trackerKey invKey b.exportKey)
          (inputsOf p sink p.fingerprint) sink.interval p.now
      if skip then previewLoop bindings t else (t, false)

def previewAllSinksDebounced (t : Tracker) : Tracker × Bool :=
  if p.bindings = [] then (t, false)
  else previewLoop invKey p p.bindings t

/- The entries when all bindings are up to date. -/
def previewEntries : List SinkExportStatus :=
  p.bindings.map fun b => debouncedEntry p (carryOverSinkExport previous b.exportKey)

/- The baselines of this pass are dropped again. -/
def forgetUnpersistedExports (t : Tracker) (outcome : PerSinkExportOutcome) : Tracker :=
  outcome.exportedSinks.foldl (fun t exportKey => t.forget (trackerKey invKey exportKey)) t

end Pass

----
-- The Result Of A Binding
----

structure SinkExport where
  inputs : ExportInputs
  written : List Text
  time : Int

inductive BindingResult where
  | failed (err : ExportError)
  | debounced (inputs : ExportInputs)
  | exported (done : SinkExport)

namespace BindingResult

def export? : BindingResult → Option SinkExport
  | .exported done => some done
  | _ => none

/- The result makes an entry out of what was carried over. -/
def entry (p : InventoryPass) (carried : SinkExportStatus) : BindingResult → SinkExportStatus
  | .failed err => failedEntry p err carried
  | .debounced _ => debouncedEntry p carried
  | .exported done => exportedEntry p done.inputs done.written done.time carried

@[simp]
theorem name_entry (p : InventoryPass) (carried : SinkExportStatus) (result : BindingResult) :
    (result.entry p carried).name = carried.name := by
  cases result <;> rfl

end BindingResult

@[simp]
theorem name_carryOverSinkExport (previous : List SinkExportStatus) (exportKey : Text) :
    (carryOverSinkExport previous exportKey).name = exportKey := by
  unfold carryOverSinkExport
  split <;> rfl

/- What a job comes to. -/
def SinkJob.result (job : SinkJob) : BindingResult :=
  match job.binding.export_ with
  | .error err => .failed err
  | .ok written => .exported ⟨job.inputs, written, job.binding.exportedAt⟩

section Pass

variable (invKey : Text) (p : InventoryPass)

/- What the pass comes to at a binding. -/
def resultOf (t : Tracker) (b : SinkBinding) : BindingResult :=
  match verdict invKey p t b with
  | .failed err => .failed err
  | .debounced inputs _ => .debounced inputs
  | .due inputs => SinkJob.result ⟨b, inputs⟩

/- The entry of a binding before the jobs finish. -/
def plannedEntry (previous : List SinkExportStatus) (t : Tracker)
    (b : SinkBinding) : SinkExportStatus :=
  let entry := carryOverSinkExport previous b.exportKey
  match verdict invKey p t b with
  | .failed err => failedEntry p err entry
  | .debounced _ _ => debouncedEntry p entry
  | .due _ => entry

def jobOf (t : Tracker) (b : SinkBinding) : Option SinkJob :=
  match verdict invKey p t b with
  | .due inputs => some ⟨b, inputs⟩
  | _ => none

end Pass

@[simp]
theorem trackerKey_inj (invKey a b : Text) : trackerKey invKey a = trackerKey invKey b ↔ a = b := by
  simp [trackerKey]

----
-- No State Is Made Up
----

namespace Tracker

/- The states of a tracker, but for skips, are in another. -/
def Within (t' t : Tracker) : Prop :=
  ∀ key state, t'.lookup key = some state →
    ∃ old, t.lookup key = some old ∧ state.inputs = old.inputs

theorem Within.refl (t : Tracker) : Within t t := fun _ state hLook => ⟨state, hLook, rfl⟩

theorem Within.trans {t₁ t₂ t₃ : Tracker} (hLeft : Within t₁ t₂) (hRight : Within t₂ t₃) :
    Within t₁ t₃ := by
  intro key state hLook
  rcases hLeft key state hLook with ⟨mid, hMid, hInputs⟩
  rcases hRight key mid hMid with ⟨old, hOld, hInputs'⟩
  exact ⟨old, hOld, hInputs.trans hInputs'⟩

theorem lookup_forget (t : Tracker) (key key' : Text) :
    (t.forget key).lookup key' = if key' = key then none else t.lookup key' :=
  GoMap.lookup_erase_ite _ _ _

theorem within_forget (t : Tracker) (key : Text) : Within (t.forget key) t := by
  intro key' state hLook
  rw [lookup_forget] at hLook
  split_ifs at hLook
  exact ⟨state, hLook, rfl⟩

theorem within_pruneStaleLocked (t : Tracker) (now : Int) : Within (t.pruneStaleLocked now) t := by
  intro key state hLook
  rcases lookup_pruneStaleLocked now t key with hKept | ⟨hGone, -⟩
  · exact ⟨state, hKept ▸ hLook, rfl⟩
  · rw [hGone] at hLook
    cases hLook

section Skip

variable (t : Tracker) (key : Text) (inputs : ExportInputs) (interval now : Int)

theorem lookup_shouldSkip_of_ne {key' : Text} (hNe : key' ≠ key) :
    (t.shouldSkip key inputs interval now).1.lookup key' = t.lookup key' := by
  rw [shouldSkip_eq]
  split
  · rfl
  · split_ifs
    · rfl
    · exact (GoMap.lookup_insert_ite _ _ _ _).trans (if_neg hNe)
    · rfl
    · rfl

theorem within_shouldSkip : Within (t.shouldSkip key inputs interval now).1 t := by
  intro key' state hLook
  by_cases hNe : key' = key
  · subst hNe
    rw [shouldSkip_eq] at hLook
    split at hLook
    · exact ⟨state, hLook, rfl⟩
    · rename_i old hOld
      split_ifs at hLook
      · exact ⟨state, hLook, rfl⟩
      · rw [GoMap.lookup_insert_ite, if_pos rfl] at hLook
        cases hLook
        exact ⟨old, hOld, rfl⟩
      · exact ⟨state, hLook, rfl⟩
      · exact ⟨state, hLook, rfl⟩
  · rw [lookup_shouldSkip_of_ne _ _ _ _ _ hNe] at hLook
    exact ⟨state, hLook, rfl⟩

/- The answer depends on the entry of the binding alone. -/
theorem shouldSkip_congr {t' : Tracker} (hLook : t'.lookup key = t.lookup key) :
    (t'.shouldSkip key inputs interval now).2 = (t.shouldSkip key inputs interval now).2 := by
  rw [shouldSkip_eq, shouldSkip_eq, hLook]
  split
  · rfl
  · split_ifs <;> rfl

theorem shouldSkip_of_due (hDue : (t.shouldSkip key inputs interval now).2 = false) :
    (t.shouldSkip key inputs interval now).1 = t := by
  rw [shouldSkip_eq] at hDue ⊢
  split at hDue
  · rfl
  · split_ifs at hDue ⊢ <;> rfl

theorem inputs_of_shouldSkip (hSkip : (t.shouldSkip key inputs interval now).2 = true) :
    ∃ state, t.lookup key = some state ∧ state.inputs = inputs := by
  rw [shouldSkip_eq] at hSkip
  split at hSkip
  · cases hSkip
  · rename_i state hState
    by_cases hSame : state.inputs = inputs
    · exact ⟨state, hState, hSame⟩
    · rw [if_pos hSame] at hSkip
      cases hSkip

end Skip

end Tracker

----
-- The Loop Over The Bindings
----

section Pass

variable {invKey : Text} {p : InventoryPass} {previous : List SinkExportStatus}

variable {b : SinkBinding} {t : Tracker}

theorem verdict_congr {t' : Tracker}
    (hLook : t'.lookup (trackerKey invKey b.exportKey) = t.lookup (trackerKey invKey b.exportKey)) :
    verdict invKey p t' b = verdict invKey p t b := by
  unfold verdict
  split
  · rfl
  · split
    · rfl
    · dsimp only
      rw [Tracker.shouldSkip_congr _ _ _ _ _ hLook]

variable {inputs : ExportInputs}

theorem verdict_debounced {interval : Int}
    (hVerdict : verdict invKey p t b = .debounced inputs interval) :
    ∃ state, t.lookup (trackerKey invKey b.exportKey) = some state ∧ state.inputs = inputs ∧
        inputs.generation = p.generation := by
  unfold verdict at hVerdict
  split at hVerdict
  · cases hVerdict
  · split at hVerdict
    · cases hVerdict
    · dsimp only at hVerdict
      split_ifs at hVerdict with hSkip
      cases hVerdict
      rcases Tracker.inputs_of_shouldSkip _ _ _ _ _ hSkip with ⟨state, hState, hInputs⟩
      exact ⟨state, hState, hInputs, rfl⟩

theorem lookup_planBinding_of_ne {s : PassState} {key : Text}
    (hNe : key ≠ trackerKey invKey b.exportKey) :
    (planBinding invKey p previous s b).tracker.lookup key = s.tracker.lookup key := by
  unfold planBinding
  split
  · exact (Tracker.lookup_forget _ _ _).trans (if_neg hNe)
  · exact Tracker.lookup_shouldSkip_of_ne _ _ _ _ _ hNe
  · rfl

theorem within_planBinding (s : PassState) (b : SinkBinding) :
    Tracker.Within (planBinding invKey p previous s b).tracker s.tracker := by
  unfold planBinding
  split
  · exact Tracker.within_forget _ _
  · exact Tracker.within_shouldSkip _ _ _ _ _
  · exact Tracker.Within.refl _

structure Planned
    (invKey : Text) (p : InventoryPass) (previous : List SinkExportStatus) (bs : List SinkBinding)
    (s s' : PassState) : Prop where
  entries : s'.outcome.sinkExports =
    s.outcome.sinkExports ++ bs.map (plannedEntry invKey p previous s.tracker)
  jobs : s'.jobs = s.jobs ++ bs.filterMap (jobOf invKey p s.tracker)
  exportedSinks : s'.outcome.exportedSinks = s.outcome.exportedSinks
  exportedCount : s'.outcome.exportedCount = s.outcome.exportedCount
  within : Tracker.Within s'.tracker s.tracker
  failed : ∀ b ∈ bs, ∀ err, verdict invKey p s.tracker b = .failed err →
      s'.tracker.lookup (trackerKey invKey b.exportKey) = none

theorem planned_one (s : PassState) (b : SinkBinding) :
    Planned invKey p previous [b] s (planBinding invKey p previous s b) := by
  refine ⟨?_, ?_, ?_, ?_, within_planBinding s b, ?_⟩
  · unfold planBinding plannedEntry
    rw [List.map_singleton]
    split <;> rfl
  · unfold planBinding jobOf
    rw [List.filterMap_cons, List.filterMap_nil]
    cases verdict invKey p s.tracker b with
    | failed | debounced => exact (List.append_nil _).symm
    | due inputs => rfl
  · unfold planBinding
    split <;> rfl
  · unfold planBinding
    split <;> rfl
  · intro b' hMem err hFailed
    rw [List.mem_singleton] at hMem
    subst hMem
    unfold planBinding
    rw [hFailed]
    exact (Tracker.lookup_forget _ _ _).trans (if_pos rfl)

theorem Tracker.Within.none {t' : Tracker} (hWithin : Within t' t) {key : Text}
    (hNone : t.lookup key = Option.none) : t'.lookup key = Option.none := by
  rw [Option.eq_none_iff_forall_ne_some]
  intro state hLook
  rcases hWithin key state hLook with ⟨old, hOld, -⟩
  rw [hNone] at hOld
  cases hOld

theorem planned (bs : List SinkBinding) (hNodup : (bs.map SinkBinding.exportKey).Nodup)
    (s : PassState) :
    Planned invKey p previous bs s (bs.foldl (planBinding invKey p previous) s) := by
  induction bs generalizing s with
  | nil => exact ⟨by simp, by simp, rfl, rfl, Tracker.Within.refl _, by simp⟩
  | cons b bs ih =>
    rw [List.map_cons, List.nodup_cons] at hNodup
    have hOne : Planned invKey p previous [b] s
        (planBinding invKey p previous s b) := planned_one s b
    have hRest := ih hNodup.2 (planBinding invKey p previous s b)
    -- the bindings after this one see the entries they had
    have hSame : ∀ b' ∈ bs,
        verdict invKey p (planBinding invKey p previous s b).tracker b' =
          verdict invKey p s.tracker b' := by
      intro b' hMem
      refine verdict_congr (lookup_planBinding_of_ne ?_)
      rw [ne_eq, trackerKey_inj]
      intro hKey
      exact hNodup.1 (hKey ▸ List.mem_map_of_mem hMem)
    have hEntries : bs.map (plannedEntry invKey p previous
          (planBinding invKey p previous s b).tracker) =
        bs.map (plannedEntry invKey p previous s.tracker) := by
      refine List.map_congr_left fun b' hMem => ?_
      unfold plannedEntry
      rw [hSame b' hMem]
    have hJobs : bs.filterMap (jobOf invKey p (planBinding invKey p previous s b).tracker) =
        bs.filterMap (jobOf invKey p s.tracker) := by
      refine List.filterMap_congr fun b' hMem => ?_
      unfold jobOf
      rw [hSame b' hMem]
    refine ⟨?_, ?_, hRest.exportedSinks.trans hOne.exportedSinks,
      hRest.exportedCount.trans hOne.exportedCount, hRest.within.trans hOne.within, ?_⟩
    · rw [List.foldl_cons, hRest.entries, hEntries,
        hOne.entries, List.append_assoc, ← List.map_append, List.singleton_append]
    · rw [List.foldl_cons, hRest.jobs, hJobs, hOne.jobs, List.append_assoc, ← List.filterMap_append,
        List.singleton_append]
    · intro b' hMem err hFailed
      rcases List.mem_cons.mp hMem with rfl | hMem
      · exact hRest.within.none (hOne.failed b' (List.mem_singleton_self _) err hFailed)
      · exact hRest.failed b' hMem err ((hSame b' hMem).trans hFailed)

----
-- The Jobs
----

/- The job of an entry, if it has one, decides it. -/
def finishEntry (p : InventoryPass) (jobs : List SinkJob)
    (entry : SinkExportStatus) : SinkExportStatus :=
  match jobs.find? fun job => job.binding.exportKey == entry.name with
  | none => entry
  | some job => job.result.entry p entry

structure Finished
    (invKey : Text) (p : InventoryPass) (jobs : List SinkJob) (s s' : PassState) : Prop where
  entries : s'.outcome.sinkExports = s.outcome.sinkExports.map (finishEntry p jobs)
  exportedSinks : s'.outcome.exportedSinks = s.outcome.exportedSinks ++
      (jobs.filter fun job => job.result.export?.isSome).map fun job => job.binding.exportKey
  exportedCount :
    s'.outcome.exportedCount + s.outcome.exportedSinks.length =
      s.outcome.exportedCount + s'.outcome.exportedSinks.length
  tracker : ∀ key state, s'.tracker.lookup key = some state → (∃ job ∈ jobs,
      key = trackerKey invKey job.binding.exportKey ∧
        ∃ done, job.result = .exported done ∧ state.inputs = done.inputs) ∨
    (∃ old, s.tracker.lookup key = some old ∧ state.inputs = old.inputs) ∧
      ∀ job ∈ jobs, key ≠ trackerKey invKey job.binding.exportKey

theorem finished_one (s : PassState) (job : SinkJob) :
    Finished invKey p [job] s (finishJob invKey p s job) := by
  have hEntries : ∀ change : SinkExportStatus → SinkExportStatus,
      (∀ entry, job.result.entry p entry = change entry) →
      (changeEntry s.outcome job.binding.exportKey change).sinkExports =
        s.outcome.sinkExports.map (finishEntry p [job]) := by
    intro change hChange
    refine List.map_congr_left fun entry _ => ?_
    unfold finishEntry
    by_cases hName : entry.name = job.binding.exportKey
    · simp [hName, hChange]
    · simp [hName, Ne.symm hName]
  unfold finishJob
  split
  · rename_i err hExport
    have hResult : job.result = .failed err := by simp [SinkJob.result, hExport]
    refine ⟨hEntries _ fun entry => by rw [hResult]; rfl, ?_, rfl, ?_⟩
    · simp [hResult, BindingResult.export?, addSinkFailure, changeEntry]
    · intro key state hLook
      rw [Tracker.lookup_forget] at hLook
      split_ifs at hLook with hKey
      exact .inr ⟨⟨state, hLook, rfl⟩, by simpa using hKey⟩
  · rename_i written hExport
    have hResult : job.result = .exported ⟨job.inputs, written, job.binding.exportedAt⟩ := by
      simp [SinkJob.result, hExport]
    refine ⟨hEntries _ fun entry => by rw [hResult]; rfl, ?_, ?_, ?_⟩
    · simp [hResult, BindingResult.export?]
    · simp only [List.length_append, List.length_singleton]
      omega
    · intro key state hLook
      rw [Tracker.lookup_record] at hLook
      split_ifs at hLook with hKey
      · cases hLook
        exact .inl ⟨job, List.mem_singleton_self _, hKey, _, hResult, rfl⟩
      · refine .inr ⟨?_, by simpa using hKey⟩
        exact Tracker.within_pruneStaleLocked _ _ key state hLook

theorem finishEntry_cons {job : SinkJob} {jobs : List SinkJob}
    (hFresh : job.binding.exportKey ∉ jobs.map fun job => job.binding.exportKey)
    (entry : SinkExportStatus) :
    finishEntry p jobs (finishEntry p [job] entry) = finishEntry p (job :: jobs) entry := by
  unfold finishEntry
  by_cases hName : job.binding.exportKey = entry.name
  · have hNone : jobs.find? (fun other => other.binding.exportKey == entry.name) = none := by
      rw [List.find?_eq_none]
      intro other hMem hKey
      refine hFresh (List.mem_map.mpr ⟨other, hMem, ?_⟩)
      exact (beq_iff_eq.mp hKey).trans hName.symm
    simp [hName, hNone]
  · simp [hName]

theorem finished (jobs : List SinkJob) (hNodup : (jobs.map fun job => job.binding.exportKey).Nodup)
    (s : PassState) : Finished invKey p jobs s (jobs.foldl (finishJob invKey p) s) := by
  induction jobs generalizing s with
  | nil =>
    refine ⟨?_, by simp, rfl, ?_⟩
    · exact (List.map_id _).symm
    · intro key state hLook
      exact .inr ⟨⟨state, hLook, rfl⟩, by simp⟩
  | cons job jobs ih =>
    rw [List.map_cons, List.nodup_cons] at hNodup
    have hOne : Finished invKey p [job] s (finishJob invKey p s job) := finished_one s job
    have hRest := ih hNodup.2 (finishJob invKey p s job)
    refine ⟨?_, ?_, ?_, ?_⟩
    · rw [List.foldl_cons, hRest.entries, hOne.entries, List.map_map]
      exact List.map_congr_left fun entry _ => finishEntry_cons hNodup.1 entry
    · rw [List.foldl_cons, hRest.exportedSinks,
        hOne.exportedSinks, List.append_assoc, ← List.map_append,
        ← List.filter_append, List.singleton_append]
    · have h₁ := hOne.exportedCount
      have h₂ := hRest.exportedCount
      rw [List.foldl_cons]
      omega
    · intro key state hLook
      rcases hRest.tracker key state hLook with
        ⟨other, hMem, hKey, hDone⟩ | ⟨⟨mid, hMid, hInputs⟩, hNe⟩
      · exact .inl ⟨other, List.mem_cons_of_mem _ hMem, hKey, hDone⟩
      rcases hOne.tracker key mid hMid with
        ⟨other, hMem, hKey, done, hDone, hMade⟩ |
        ⟨⟨old, hOld, hInputs'⟩, hNe'⟩
      · rw [List.mem_singleton] at hMem
        subst hMem
        exact .inl ⟨other, List.mem_cons_self, hKey, done, hDone, hInputs.trans hMade⟩
      · refine .inr ⟨⟨old, hOld, hInputs.trans hInputs'⟩, ?_⟩
        intro other hMem
        rcases List.mem_cons.mp hMem with rfl | hMem
        · exact hNe' other (List.mem_singleton_self _)
        · exact hNe other hMem

----
-- A Pass As A Whole
----

theorem jobOf_eq_some {job : SinkJob} :
    jobOf invKey p t b = some job ↔ job.binding = b ∧ verdict invKey p t b = .due job.inputs := by
  unfold jobOf
  rcases job with ⟨b', inputs⟩
  cases verdict invKey p t b with
  | failed | debounced => simp
  | due inputs' =>
    simp only [Option.some.injEq, SinkJob.mk.injEq, Verdict.due.injEq]
    exact and_congr eq_comm Iff.rfl

section Arranged

variable {t : Tracker} {jobs : List SinkJob}

variable (hPerm : jobs.Perm (p.bindings.filterMap (jobOf invKey p t)))

include hPerm

/- Jobs, in any order, have one binding each. -/
theorem nodup_jobs : (jobs.map fun job => job.binding.exportKey).Nodup := by
  rw [(hPerm.map _).nodup_iff]
  refine List.pairwise_map.mpr ?_
  refine List.Pairwise.filterMap _ ?_ (List.pairwise_map.mp p.nodup)
  intro b b' hNe job hJob job' hJob'
  rw [(jobOf_eq_some.mp hJob).1, (jobOf_eq_some.mp hJob').1]
  exact hNe

theorem mem_jobs {job : SinkJob} :
    job ∈ jobs ↔ job.binding ∈ p.bindings ∧ verdict invKey p t job.binding = .due job.inputs := by
  rw [hPerm.mem_iff, List.mem_filterMap]
  constructor
  · rintro ⟨b, hMem, hJob⟩
    rcases jobOf_eq_some.mp hJob with ⟨rfl, hDue⟩
    exact ⟨hMem, hDue⟩
  · rintro ⟨hMem, hDue⟩
    exact ⟨job.binding, hMem, jobOf_eq_some.mpr ⟨rfl, hDue⟩⟩

theorem binding_of_job {job : SinkJob} (hJob : job ∈ jobs) (hMem : b ∈ p.bindings)
    (hKey : job.binding.exportKey = b.exportKey) :
    job.binding = b ∧ verdict invKey p t b = .due job.inputs := by
  rcases (mem_jobs hPerm).mp hJob with ⟨hMem', hDue⟩
  have hSame := List.inj_on_of_nodup_map p.nodup hMem' hMem hKey
  exact ⟨hSame, hSame ▸ hDue⟩

theorem finishEntry_planned (hMem : b ∈ p.bindings) :
    finishEntry p jobs (plannedEntry invKey p previous t b) =
      (resultOf invKey p t b).entry p (carryOverSinkExport previous b.exportKey) := by
  have hIdle : (∀ inputs, verdict invKey p t b ≠ .due inputs) →
      ∀ entry : SinkExportStatus, entry.name = b.exportKey → finishEntry p jobs entry = entry := by
    intro hNotDue entry hName
    have hNone : jobs.find? (fun job => job.binding.exportKey == entry.name) = none := by
      rw [List.find?_eq_none]
      intro job hJob hKey
      exact hNotDue _ (binding_of_job hPerm hJob hMem ((beq_iff_eq.mp hKey).trans hName)).2
    unfold finishEntry
    rw [hNone]
  unfold plannedEntry resultOf
  cases hVerdict : verdict invKey p t b with
  | failed | debounced =>
    rw [hVerdict] at hIdle
    exact hIdle (by simp) _ (name_carryOverSinkExport _ _)
  | due inputs =>
    have hJob : (⟨b, inputs⟩ : SinkJob) ∈ jobs := (mem_jobs hPerm).mpr ⟨hMem, hVerdict⟩
    unfold finishEntry
    rw [name_carryOverSinkExport]
    cases hFound : jobs.find? fun job => job.binding.exportKey == b.exportKey with
    | none => exact absurd (beq_self_eq_true b.exportKey) (List.find?_eq_none.mp hFound _ hJob)
    | some job =>
      have hKey := List.find?_some hFound
      rcases binding_of_job hPerm (List.mem_of_find?_eq_some
        hFound) hMem (beq_iff_eq.mp hKey) with ⟨hSame, hDue⟩
      rw [hVerdict, Verdict.due.injEq] at hDue
      rcases job with ⟨b', inputs'⟩
      cases hSame
      cases hDue
      rfl

end Arranged

theorem resultOf_due (hVerdict : verdict invKey p t b = .due inputs) :
    resultOf invKey p t b = SinkJob.result ⟨b, inputs⟩ := by
  unfold resultOf
  rw [hVerdict]

/- What a pass over the bindings does. -/
structure Exports
    (invKey : Text) (p : InventoryPass) (previous : List SinkExportStatus) (t : Tracker)
    (t' : Tracker) (outcome : PerSinkExportOutcome) : Prop where
  entries : outcome.sinkExports = p.bindings.map fun b =>
    (resultOf invKey p t b).entry p (carryOverSinkExport previous b.exportKey)
  exportedSinks : ∀ b ∈ p.bindings, ∀ done,
    resultOf invKey p t b = .exported done → b.exportKey ∈ outcome.exportedSinks
  total : isTotalExportFailure outcome = true → outcome.exportedSinks = []
  tracker : ∀ key state, t'.lookup key = some state →
    (∃ b ∈ p.bindings, key = trackerKey invKey b.exportKey ∧
      ∃ done, resultOf invKey p t b = .exported done ∧ state.inputs = done.inputs) ∨
    (∃ old, t.lookup key = some old ∧ state.inputs = old.inputs) ∧
      ∀ b ∈ p.bindings, key = trackerKey invKey b.exportKey →
        ∃ inputs, resultOf invKey p t b = .debounced inputs

theorem exportToSinks_spec (t : Tracker) :
    Exports invKey p previous t (exportToSinks invKey p previous t).1
      (exportToSinks invKey p previous t).2 := by
  have hPlan : Planned invKey p previous p.bindings
      ⟨t, emptyOutcome, []⟩ _ := planned p.bindings p.nodup _
  unfold exportToSinks
  dsimp only
  generalize p.bindings.foldl (planBinding invKey p previous) ⟨t, emptyOutcome, []⟩ = mid at hPlan ⊢
  have hPerm : (p.arrange mid.jobs).Perm (p.bindings.filterMap (jobOf invKey p t)) := by
    have hJobs := hPlan.jobs
    rw [List.nil_append] at hJobs
    exact hJobs ▸ p.arranged mid.jobs
  have hDone : Finished invKey p (p.arrange mid.jobs) mid _ :=
    finished (p.arrange mid.jobs) (nodup_jobs hPerm) mid
  generalize (p.arrange mid.jobs).foldl (finishJob invKey p) mid = last at hDone ⊢
  refine ⟨?_, ?_, ?_, ?_⟩
  · rw [hDone.entries, hPlan.entries]
    dsimp only [emptyOutcome]
    rw [List.nil_append, List.map_map]
    exact List.map_congr_left fun b hMem => finishEntry_planned hPerm hMem
  · intro b hMem done hResult
    cases hVerdict : verdict invKey p t b with
    | failed | debounced => simp [resultOf, hVerdict] at hResult
    | due inputs =>
      rw [resultOf_due hVerdict] at hResult
      rw [hDone.exportedSinks, List.mem_append]
      refine .inr (List.mem_map.mpr ⟨⟨b, inputs⟩, ?_, rfl⟩)
      refine List.mem_filter.mpr ⟨(mem_jobs hPerm).mpr ⟨hMem, hVerdict⟩, ?_⟩
      rw [hResult]
      rfl
  · intro hTotal
    unfold isTotalExportFailure at hTotal
    have hCount := hDone.exportedCount
    rw [hPlan.exportedCount, hPlan.exportedSinks] at hCount
    dsimp only [emptyOutcome] at hCount
    simp only [Bool.and_eq_true, beq_iff_eq] at hTotal
    refine List.eq_nil_of_length_eq_zero ?_
    rw [List.length_nil] at hCount
    omega
  · intro key state hLook
    rcases hDone.tracker key state hLook with
      ⟨job, hJob, hKey, done, hResult, hInputs⟩ |
      ⟨⟨mid', hMid, hInputs⟩, hNoJob⟩
    · rcases (mem_jobs hPerm).mp hJob with ⟨hMem, hDue⟩
      refine .inl ⟨job.binding, hMem, hKey, done, ?_, hInputs⟩
      rw [resultOf_due hDue]
      exact hResult
    · rcases hPlan.within key mid' hMid with ⟨old, hOld, hOlder⟩
      refine .inr ⟨⟨old, hOld, hInputs.trans hOlder⟩, ?_⟩
      intro b hMem hKey
      cases hVerdict : verdict invKey p t b with
      | failed err =>
        have hNone := hPlan.failed b hMem err hVerdict
        rw [← hKey, hMid] at hNone
        cases hNone
      | debounced inputs interval => exact ⟨inputs, by simp [resultOf, hVerdict]⟩
      | due inputs => exact absurd hKey (hNoJob ⟨b, inputs⟩ ((mem_jobs hPerm).mpr ⟨hMem, hVerdict⟩))

theorem within_previewLoop (bs : List SinkBinding) (t : Tracker) :
    Tracker.Within (previewLoop invKey p bs t).1 t := by
  induction bs generalizing t with
  | nil => exact Tracker.Within.refl t
  | cons b bs ih =>
    unfold previewLoop
    split
    · exact Tracker.Within.refl t
    · rename_i sink _
      have hSkip := Tracker.within_shouldSkip t (trackerKey invKey b.exportKey)
        (inputsOf p sink p.fingerprint) sink.interval p.now
      dsimp only
      split_ifs
      · exact (ih _).trans hSkip
      · exact hSkip

/- It is content only with inputs that were recorded. -/
theorem state_of_previewLoop (bs : List SinkBinding) (t : Tracker)
    (hAll : (previewLoop invKey p bs t).2 = true) (hMem : b ∈ bs) :
    ∃ sink, b.resolved = .ok sink ∧ ∃ state, t.lookup (trackerKey invKey b.exportKey) = some state ∧
          state.inputs = inputsOf p sink p.fingerprint := by
  induction bs generalizing t with
  | nil => cases hMem
  | cons b' bs ih =>
    unfold previewLoop at hAll
    split at hAll
    · cases hAll
    rename_i sink hSink
    dsimp only at hAll
    split_ifs at hAll with hSkip
    rcases List.mem_cons.mp hMem with rfl | hMem
    · exact ⟨sink, hSink, Tracker.inputs_of_shouldSkip _ _ _ _ _ hSkip⟩
    · rcases ih _ hAll hMem with ⟨sink', hSink', state, hState, hInputs⟩
      rcases Tracker.within_shouldSkip _ _ _ _ _ _ _ hState with ⟨old, hOld, hOlder⟩
      exact ⟨sink', hSink', old, hOld, hOlder.symm.trans hInputs⟩

theorem lookup_forgetUnpersistedExports (t : Tracker) (outcome : PerSinkExportOutcome) (key : Text)
    (state : SinkCoalesceState)
    (hLook : (forgetUnpersistedExports invKey t outcome).lookup key = some state) :
    t.lookup key = some state ∧
      ∀ exportKey ∈ outcome.exportedSinks, key ≠ trackerKey invKey exportKey := by
  unfold forgetUnpersistedExports at hLook
  generalize outcome.exportedSinks = sinks at hLook ⊢
  induction sinks generalizing t with
  | nil => exact ⟨hLook, by simp⟩
  | cons exportKey sinks ih =>
    rcases ih _ hLook with ⟨hOld, hRest⟩
    rw [Tracker.lookup_forget] at hOld
    split_ifs at hOld with hKey
    exact ⟨hOld, List.forall_mem_cons.mpr ⟨hKey, hRest⟩⟩

end Pass

----
-- Passes And Status Writes
----

/-
  The tracker of the process, the entries that are stored, and the results of all passes, newest
  first.
-/
structure ExportSystem where
  tracker : Tracker
  status : List SinkExportStatus
  log : List (Text × BindingResult)
  generation : Int

/- A new process starts with an empty tracker. -/
inductive ExportEvent where
  | pass (p : InventoryPass)
  | restart

/- The newest result of a binding that has a feature. -/
def newest {α : Type} (feature : BindingResult → Option α)
    (log : List (Text × BindingResult)) (exportKey : Text) : Option α :=
  log.findSome? fun x => if x.1 = exportKey then feature x.2 else none

def lastResult : List (Text × BindingResult) → Text → Option BindingResult := newest some

def lastExport : List (Text × BindingResult) → Text → Option SinkExport :=
  newest BindingResult.export?

/- The last export that wrote something. -/
def lastWrite : List (Text × BindingResult) → Text → Option SinkExport :=
  newest fun result => result.export?.filter fun done => done.written ≠ []

/- The last export that was tried, and what came of it. -/
def lastAttempt : List (Text × BindingResult) → Text → Option BindingResult :=
  newest fun result =>
    match result with
    | .debounced _ => none
    | _ => some result

namespace ExportSystem

variable (invKey : Text)

def start (status : List SinkExportStatus) (generation : Int) : ExportSystem :=
  ⟨∅, status, [], generation⟩

/- What a pass that finds all up to date says of a binding. -/
def previewResult (p : InventoryPass) (b : SinkBinding) : BindingResult :=
  match b.resolved with
  | .error err => .failed err
  | .ok sink => .debounced (inputsOf p sink p.fingerprint)

/- The result of a pass at a binding. -/
def result (s : ExportSystem) (p : InventoryPass) (b : SinkBinding) : BindingResult :=
  let (t, allDebounced) := previewAllSinksDebounced invKey p s.tracker
  if allDebounced then previewResult p b
  else resultOf invKey p t b

/- `Reconcile` from the first look on, with `applyInventoryExportOutcome` and `updateStatus`. -/
def reconcile (s : ExportSystem) (p : InventoryPass) : Tracker × List SinkExportStatus :=
  let previous := p.stale.getD s.status
  let (t, allDebounced) := previewAllSinksDebounced invKey p s.tracker
  if allDebounced then (t, if p.written then previewEntries p previous else s.status)
  else
    let (t, outcome) := exportToSinks invKey p previous t
    if p.written then (t, outcome.sinkExports)
    else if isTotalExportFailure outcome then (t, s.status)
    else (forgetUnpersistedExports invKey t outcome, s.status)

def step (s : ExportSystem) : ExportEvent → ExportSystem
  | .pass p =>
    let (tracker, status) := s.reconcile invKey p
    { tracker
      status
      log := p.bindings.map (fun b => (b.exportKey, s.result invKey p b)) ++ s.log
      generation := p.generation }
  | .restart => { s with tracker := ∅ }

end ExportSystem

section Newest

variable {α : Type} (feature : BindingResult → Option α)

theorem newest_cons (exportKey' : Text) (result : BindingResult)
    (log : List (Text × BindingResult)) (exportKey : Text) :
    newest feature ((exportKey', result) :: log) exportKey =
      if exportKey' = exportKey then (feature result).or (newest feature log exportKey)
      else newest feature log exportKey := by
  unfold newest
  rw [List.findSome?_cons]
  split_ifs with hKey
  · cases feature result <;> rfl
  · rfl

variable (result : SinkBinding → BindingResult) (log : List (Text × BindingResult))

variable {bs : List SinkBinding}

theorem newest_append_fresh {exportKey : Text} (hFresh : exportKey ∉ bs.map SinkBinding.exportKey) :
    newest feature (bs.map (fun b => (b.exportKey, result b)) ++ log)
        exportKey = newest feature log exportKey := by
  induction bs with
  | nil => rfl
  | cons b bs ih =>
    rw [List.map_cons, List.mem_cons, not_or] at hFresh
    rw [List.map_cons, List.cons_append, newest_cons, if_neg (Ne.symm hFresh.1), ih hFresh.2]

/- A pass has one result for each of its bindings. -/
theorem newest_append (hNodup : (bs.map SinkBinding.exportKey).Nodup) {b : SinkBinding}
    (hMem : b ∈ bs) :
    newest feature (bs.map (fun b => (b.exportKey, result b)) ++ log) b.exportKey =
      (feature (result b)).or (newest feature log b.exportKey) := by
  induction bs with
  | nil => cases hMem
  | cons b' bs ih =>
    rw [List.map_cons, List.nodup_cons] at hNodup
    rw [List.map_cons, List.cons_append, newest_cons]
    rcases List.mem_cons.mp hMem with rfl | hMem
    · rw [if_pos rfl, newest_append_fresh _ _ _ hNodup.1]
    · rw [if_neg, ih hNodup.2 hMem]
      intro hKey
      exact hNodup.1 (hKey ▸ List.mem_map_of_mem hMem)

end Newest

theorem findEntry_map {bs : List SinkBinding} (hNodup : (bs.map SinkBinding.exportKey).Nodup)
    {entry : SinkBinding → SinkExportStatus} (hName : ∀ b, (entry b).name = b.exportKey)
    {b : SinkBinding} (hMem : b ∈ bs) : findEntry (bs.map entry) b.exportKey = some (entry b) := by
  induction bs with
  | nil => cases hMem
  | cons b' bs ih =>
    rw [List.map_cons, List.nodup_cons] at hNodup
    unfold findEntry
    rw [List.map_cons, List.find?_cons, hName]
    rcases List.mem_cons.mp hMem with rfl | hMem
    · rw [beq_self_eq_true]
    · have hNe : (b'.exportKey == b.exportKey) = false := by
        refine beq_eq_false_iff_ne.mpr fun hKey => ?_
        exact hNodup.1 (hKey ▸ List.mem_map_of_mem hMem)
      rw [hNe]
      exact ih hNodup.2 hMem

theorem carryOverSinkExport_of_findEntry {entries : List SinkExportStatus} {exportKey : Text}
    {entry : SinkExportStatus} (hFound : findEntry entries exportKey = some entry) :
    carryOverSinkExport entries exportKey = entry := by
  have hName : entry.name = exportKey := by
    have hBeq := List.find?_some hFound
    exact beq_iff_eq.mp hBeq
  unfold carryOverSinkExport
  rw [hFound]
  cases entry
  cases hName
  rfl

----
-- What A Reconcile Leaves
----

namespace ExportSystem

variable {invKey : Text} (s : ExportSystem) (p : InventoryPass)

theorem preview_within :
    Tracker.Within (previewAllSinksDebounced invKey p s.tracker).1 s.tracker := by
  unfold previewAllSinksDebounced
  split_ifs
  · exact Tracker.Within.refl _
  · exact within_previewLoop _ _

variable {b : SinkBinding}

/- What is up to date at the first look was recorded so. -/
theorem previewResult_eq (hAll : (previewAllSinksDebounced invKey p s.tracker).2 = true)
    (hMem : b ∈ p.bindings) :
    ∃ inputs, previewResult p b = .debounced inputs ∧ inputs.generation = p.generation ∧
      ∃ state, s.tracker.lookup (trackerKey invKey b.exportKey) =
        some state ∧ state.inputs = inputs := by
  unfold previewAllSinksDebounced at hAll
  split_ifs at hAll
  rcases state_of_previewLoop _ _ hAll hMem with ⟨sink, hSink, hState⟩
  refine ⟨inputsOf p sink p.fingerprint, ?_, rfl, hState⟩
  unfold previewResult
  rw [hSink]

/- A binding is left alone for what was recorded only. -/
theorem result_debounced (hMem : b ∈ p.bindings) {inputs : ExportInputs}
    (hResult : s.result invKey p b = .debounced inputs) :
    inputs.generation = p.generation ∧ ∃ state, s.tracker.lookup (trackerKey invKey b.exportKey) =
        some state ∧ state.inputs = inputs := by
  unfold result at hResult
  dsimp only at hResult
  split_ifs at hResult with hAll
  · rcases previewResult_eq s p hAll hMem with ⟨inputs', hPreview, hState⟩
    rw [hPreview] at hResult
    cases hResult
    exact hState
  · unfold resultOf at hResult
    split at hResult
    · cases hResult
    · rename_i inputs' interval hVerdict
      cases hResult
      rcases verdict_debounced hVerdict with ⟨state, hState, hInputs, hGen⟩
      rcases preview_within s p _ _ hState with ⟨old, hOld, hOlder⟩
      exact ⟨hGen, old, hOld, hOlder.symm.trans hInputs⟩
    · unfold SinkJob.result at hResult
      split at hResult <;> cases hResult

theorem result_exported {done : SinkExport} (hResult : s.result invKey p b = .exported done) :
    done.inputs.generation = p.generation := by
  unfold result at hResult
  dsimp only at hResult
  split_ifs at hResult
  · unfold previewResult at hResult
    split at hResult <;> cases hResult
  · unfold resultOf verdict at hResult
    split at hResult
    · cases hResult
    · cases hResult
    · rename_i inputs hVerdict
      unfold SinkJob.result at hResult
      split at hResult
      · cases hResult
      · cases hResult
        split at hVerdict
        · cases hVerdict
        · split at hVerdict
          · cases hVerdict
          · dsimp only at hVerdict
            split_ifs at hVerdict
            cases hVerdict
            rfl

/- A status that is written has the results of its pass. -/
theorem reconcile_status (hWritten : p.written = true) :
    (s.reconcile invKey p).2 = p.bindings.map fun b =>
      (s.result invKey p b).entry p (carryOverSinkExport s.status b.exportKey) := by
  unfold reconcile result
  rw [p.fresh hWritten]
  dsimp only [Option.getD_none]
  split_ifs with hAll
  · refine List.map_congr_left fun b hMem => ?_
    rcases previewResult_eq s p hAll hMem with ⟨inputs, hEq, -⟩
    rw [hEq]
    rfl
  · exact (exportToSinks_spec _).entries

theorem reconcile_status_of_unwritten (hWritten : p.written ≠ true) :
    (s.reconcile invKey p).2 = s.status := by
  unfold reconcile
  dsimp only
  split_ifs <;> rfl

theorem reconcile_tracker {key : Text} {state : SinkCoalesceState}
    (hLook : (s.reconcile invKey p).1.lookup key = some state) :
    (∃ b ∈ p.bindings, key = trackerKey invKey b.exportKey ∧
      ∃ done, s.result invKey p b = .exported done ∧
        state.inputs = done.inputs ∧ p.written = true) ∨
    (∃ old, s.tracker.lookup key = some old ∧ state.inputs = old.inputs) ∧
      ∀ b ∈ p.bindings, key = trackerKey invKey b.exportKey →
        ∃ inputs, s.result invKey p b = .debounced inputs := by
  have hWithin : Tracker.Within (previewAllSinksDebounced invKey p s.tracker).1 s.tracker :=
    preview_within s p
  unfold reconcile at hLook
  unfold result
  dsimp only at hLook ⊢
  by_cases hAll : (previewAllSinksDebounced invKey p s.tracker).2 = true
  · rw [if_pos hAll] at hLook
    refine .inr ⟨hWithin key state hLook, ?_⟩
    intro b hMem _
    rcases previewResult_eq s p hAll hMem with ⟨inputs, hEq, -⟩
    exact ⟨inputs, by rw [if_pos hAll, hEq]⟩
  rw [if_neg hAll] at hLook
  simp only [if_neg hAll]
  have hSpec : Exports invKey p (p.stale.getD s.status)
      (previewAllSinksDebounced invKey p s.tracker).1 _ _ :=
    exportToSinks_spec _
  generalize exportToSinks invKey p (p.stale.getD s.status)
    (previewAllSinksDebounced invKey p s.tracker).1 = out at hLook hSpec
  -- what was exported is forgotten if it is not written
  have hKept : out.1.lookup key = some state ∧
      (p.written = true ∨ ∀ exportKey ∈ out.2.exportedSinks,
        key ≠ trackerKey invKey exportKey) := by
    by_cases hWritten : p.written = true
    · rw [if_pos hWritten] at hLook
      exact ⟨hLook, .inl hWritten⟩
    rw [if_neg hWritten] at hLook
    by_cases hTotal : isTotalExportFailure out.2 = true
    · rw [if_pos hTotal] at hLook
      exact ⟨hLook, .inr (by simp [hSpec.total hTotal])⟩
    · rw [if_neg hTotal] at hLook
      rcases lookup_forgetUnpersistedExports _ _ _ _ hLook with ⟨hOut, hNe⟩
      exact ⟨hOut, .inr hNe⟩
  rcases hSpec.tracker key state hKept.1 with
    ⟨b, hMem, hKey, done, hResult, hInputs⟩ |
    ⟨⟨old, hOld, hInputs⟩, hDebounced⟩
  · refine .inl ⟨b, hMem, hKey, done, hResult, hInputs, ?_⟩
    refine hKept.2.resolve_right fun hNe => ?_
    exact hNe _ (hSpec.exportedSinks b hMem done hResult) hKey
  · rcases hWithin key old hOld with ⟨older, hOlder, hSame⟩
    exact .inr ⟨⟨older, hOlder, hInputs.trans hSame⟩, hDebounced⟩

end ExportSystem

----
-- What The Entries Record
----

/- The part of an entry that is carried over. -/
structure Keeps (log : List (Text × BindingResult)) (entry : SinkExportStatus) : Prop where
  time : entry.lastExportTime = (lastExport log entry.name).map SinkExport.time
  checksum : entry.lastChecksum =
    (lastExport log entry.name).elim [] fun done => done.inputs.checksum
  paths : entry.lastExportPaths =
    (lastWrite log entry.name).elim [] fun done => recordExportPaths done.written []

/- The entry of a binding after a pass. -/
structure Records (log : List (Text × BindingResult))
    (entry : SinkExportStatus) : Prop extends Keeps log entry where
  synced : ∃ condition, entry.synced = some condition ∧
    (condition.status = false ↔ ∃ err, lastResult log entry.name = some (.failed err))

namespace ExportSystem

variable {invKey : Text}

/- Every binding has an entry, which records what it did. -/
def Recorded (keys : List Text) (s : ExportSystem) : Prop :=
  ∀ key ∈ keys, ∃ entry,
    findEntry s.status key = some entry ∧ entry.name = key ∧ Records s.log entry

/- What the next pass carries over is right. -/
def Carries (keys : List Text) (s : ExportSystem) : Prop :=
  ∀ key ∈ keys, Keeps s.log (carryOverSinkExport s.status key)

/- Passes over the same bindings, each with its write. -/
def Writes (keys : List Text) : ExportEvent → Prop
  | .pass p => p.written = true ∧ ∀ key, key ∈ p.bindings.map SinkBinding.exportKey ↔ key ∈ keys
  | .restart => False

variable {b : SinkBinding} {p : InventoryPass}

/- A result makes a right entry out of a right one. -/
theorem records_entry {result : SinkBinding → BindingResult} {log : List (Text × BindingResult)}
    (hMem : b ∈ p.bindings) {carried : SinkExportStatus} (hName : carried.name = b.exportKey)
    (hKeeps : Keeps log carried) :
    Records (p.bindings.map (fun b => (b.exportKey, result b)) ++
      log) ((result b).entry p carried) := by
  rcases hKeeps with ⟨hTime, hSum, hPaths⟩
  rw [hName] at hTime hSum hPaths
  generalize hLog : p.bindings.map (fun b => (b.exportKey, result b)) ++ log = log'
  have hExport : lastExport log' b.exportKey = (result b).export?.or (lastExport log b.exportKey) :=
    hLog ▸ newest_append _ _ _ p.nodup hMem
  have hWrite : lastWrite log' b.exportKey =
      ((result b).export?.filter fun done => done.written ≠ []).or (lastWrite log b.exportKey) :=
    hLog ▸ newest_append _ _ _ p.nodup hMem
  have hResult : lastResult log' b.exportKey = some (result b) :=
    hLog ▸ newest_append _ _ _ p.nodup hMem
  have hName' : ((result b).entry p carried).name = b.exportKey := by
    rw [BindingResult.name_entry, hName]
  refine ⟨⟨?_, ?_, ?_⟩, ?_⟩
  · rw [hName', hExport]
    cases result b with
    | failed | debounced => exact hTime
    | exported done => rfl
  · rw [hName', hExport]
    cases result b with
    | failed | debounced => exact hSum
    | exported done => rfl
  · rw [hName', hWrite]
    cases result b with
    | failed | debounced => exact hPaths
    | exported done =>
      -- an export that wrote nothing leaves the paths
      change recordExportPaths done.written carried.lastExportPaths = _
      dsimp only [BindingResult.export?]
      by_cases hNone : done.written = []
      · rw [hPaths, Option.filter_some_neg (by simp [hNone])]
        exact if_pos hNone
      · rw [Option.filter_some_pos (by simp [hNone])]
        unfold recordExportPaths
        rw [if_neg hNone]
        exact (if_neg hNone).symm
  · rw [hName', hResult]
    cases result b with
    | failed | debounced | exported => exact ⟨_, rfl, by simp⟩

/- The entry of a binding after a pass that is written. -/
theorem findEntry_step (s : ExportSystem) (hWritten : p.written = true) (hMem : b ∈ p.bindings) :
    findEntry (s.step invKey (.pass p)).status b.exportKey =
      some ((s.result invKey p b).entry p (carryOverSinkExport s.status b.exportKey)) := by
  have hName : ∀ b, ((s.result invKey p b).entry p
      (carryOverSinkExport s.status b.exportKey)).name = b.exportKey := by
    intro b
    rw [BindingResult.name_entry, name_carryOverSinkExport]
  change findEntry (s.reconcile invKey p).2 b.exportKey = _
  rw [reconcile_status s p hWritten]
  exact findEntry_map p.nodup hName hMem

theorem recorded_step {keys : List Text} {s : ExportSystem}
    (hCarries : Carries keys s) {e : ExportEvent} (hWrites : Writes keys e) :
    Recorded keys (s.step invKey e) := by
  cases e with
  | restart => exact hWrites.elim
  | pass p =>
    intro key hKey
    rcases List.mem_map.mp ((hWrites.2 key).mpr hKey) with ⟨b, hMem, rfl⟩
    refine ⟨_, findEntry_step s hWrites.1 hMem, ?_,
      records_entry hMem (name_carryOverSinkExport _ _) (hCarries _ hKey)⟩
    rw [BindingResult.name_entry, name_carryOverSinkExport]

theorem carries_step {keys : List Text} (s : ExportSystem) (e : ExportEvent)
    (hCarries : Carries keys s) (hWrites : Writes keys e) : Carries keys (s.step invKey e) := by
  intro key hKey
  have hRecorded : Recorded keys (s.step invKey e) := recorded_step hCarries hWrites
  rcases hRecorded key hKey with ⟨entry, hFound, -, hRecords⟩
  rw [carryOverSinkExport_of_findEntry hFound]
  exact hRecords.toKeeps

/- A pass over one sink that would take the export. -/
def onePass (now : Int) : InventoryPass where
  inventoryUID := ("u" : Text)
  generation := 1
  requestedAt := []
  now := now
  fingerprint := ("c" : Text)
  bindings :=
    [{ exportKey := ("s/a" : Text)
       resolved := .ok ⟨("v" : Text), 1, 60⟩
       checksum := .ok ("c" : Text)
       export_ := .ok [("a.json" : Text)]
       exportedAt := now }]
  arrange jobs := jobs
  stale := none
  written := true
  nodup := List.nodup_singleton _
  arranged := List.Perm.refl
  fresh _ := rfl

/- After each pass the entries are those of the last exports. -/
theorem entries_record_last_export (invKey : Text) (keys : List Text) (generation : Int)
    (events : List ExportEvent) (hWrites : ∀ e ∈ events, Writes keys e) :
    Run.Along (step invKey) (fun s e => Recorded keys (s.step invKey e))
      (start [] generation) events := by
  have hStart : Carries keys (start [] generation) := fun key _ => ⟨rfl, rfl, rfl⟩
  refine (Run.along_invariant carries_step hStart
    (Run.along_of_forall fun e hMem _ => hWrites e hMem)).imp ?_
  rintro s e ⟨hCarries, hWrite⟩
  exact recorded_step hCarries hWrite

/- A debounced pass keeps the record of the pass before. -/
theorem debounced_pass_keeps_record :
    (Run.exec (step ("n/i" : Text)) (start [] 1) [.pass (onePass 7), .pass (onePass 9)]).status.map
        (fun entry => (entry.lastExportTime, entry.lastChecksum)) = [(some 7, ("c" : Text))] ∧
    Run.Along (step ("n/i" : Text)) (fun s e => Recorded [("s/a" : Text)] (s.step ("n/i" : Text) e))
      (start [] 1) [.pass (onePass 7), .pass (onePass 9)] := by
  refine ⟨rfl, entries_record_last_export _ _ _ _ ?_⟩
  intro e hMem
  simp only [List.mem_cons, List.not_mem_nil, or_false] at hMem
  rcases hMem with rfl | rfl
  · exact ⟨rfl, fun _ => Iff.rfl⟩
  · exact ⟨rfl, fun _ => Iff.rfl⟩

----
-- What A Debounce Rests On
----

/-
  The last export that was tried has succeeded, and the stored entry has its time and the checksum.
-/
def Backed (s : ExportSystem) (exportKey checksum : Text) : Prop :=
  ∃ done, lastAttempt s.log exportKey = some (.exported done) ∧
    done.inputs.checksum = checksum ∧
    ∃ entry, findEntry s.status exportKey = some entry ∧ entry.lastExportTime = some done.time ∧
      entry.lastChecksum = checksum

/-
  The spec decides which bindings there are, and a pass does not see an older one than the pass
  before.
-/
def Orderly (specKeys : Int → List Text) (s : ExportSystem) : ExportEvent → Prop
  | .pass p => s.generation ≤ p.generation ∧
      ∀ key, key ∈ p.bindings.map SinkBinding.exportKey ↔ key ∈ specKeys p.generation
  | .restart => True

/- A state of the present generation is backed. -/
def Grounded (invKey : Text) (specKeys : Int → List Text) (s : ExportSystem) : Prop :=
  ∀ exportKey state, s.tracker.lookup (trackerKey invKey exportKey) = some state →
      exportKey ∈ specKeys state.lastGeneration ∧ state.lastGeneration ≤ s.generation ∧
      (state.lastGeneration = s.generation → Backed s exportKey state.lastChecksum)

theorem Backed.step {s : ExportSystem} (hMem : b ∈ p.bindings) {inputs : ExportInputs}
    (hResult : s.result invKey p b = .debounced inputs) {checksum : Text}
    (hBacked : Backed s b.exportKey checksum) :
    Backed (s.step invKey (.pass p)) b.exportKey checksum := by
  rcases hBacked with ⟨done, hAttempt, hSum, entry, hFound, hTime, hEntry⟩
  refine ⟨done, ?_, hSum, ?_⟩
  · refine (newest_append _ _ _ p.nodup hMem).trans ?_
    rw [hResult]
    exact hAttempt
  · by_cases hWritten : p.written = true
    · refine ⟨_, findEntry_step s hWritten hMem, ?_⟩
      rw [hResult, carryOverSinkExport_of_findEntry hFound]
      exact ⟨hTime, hEntry⟩
    · refine ⟨entry, ?_, hTime, hEntry⟩
      change findEntry (s.reconcile invKey p).2 _ = _
      rw [reconcile_status_of_unwritten s p hWritten]
      exact hFound

theorem grounded_step {specKeys : Int → List Text} (s : ExportSystem)
    (e : ExportEvent) (hGrounded : Grounded invKey specKeys s) (hOrderly : Orderly specKeys s e) :
    Grounded invKey specKeys (s.step invKey e) := by
  cases e with
  | restart =>
    intro exportKey state hLook
    cases hLook
  | pass p =>
    rcases hOrderly with ⟨hGen, hKeys⟩
    intro exportKey state hLook
    rcases reconcile_tracker s p hLook with
      ⟨b, hMem, hKey, done, hResult, hInputs, hWritten⟩ |
      ⟨⟨old, hOld, hInputs⟩, hDebounced⟩
    · rw [trackerKey_inj] at hKey
      subst hKey
      have hSum : state.lastChecksum = done.inputs.checksum :=
        congrArg ExportInputs.checksum hInputs
      have hNow : state.lastGeneration = p.generation :=
        (congrArg ExportInputs.generation hInputs).trans (result_exported s p hResult)
      refine ⟨?_, hNow.le, fun _ => ⟨done, ?_, hSum.symm, _, findEntry_step s hWritten hMem, ?_⟩⟩
      · rw [hNow]
        exact (hKeys _).mp (List.mem_map_of_mem hMem)
      · refine (newest_append _ _ _ p.nodup hMem).trans ?_
        rw [hResult]
        rfl
      · rw [hResult]
        exact ⟨rfl, hSum.symm⟩
    · have hSum : state.lastChecksum = old.lastChecksum := congrArg ExportInputs.checksum hInputs
      have hThen : state.lastGeneration = old.lastGeneration :=
        congrArg ExportInputs.generation hInputs
      rcases hGrounded exportKey old hOld with ⟨hSpec, hOlder, hBacked⟩
      rw [← hThen] at hSpec hOlder hBacked
      refine ⟨hSpec, hOlder.trans hGen, fun hNow => ?_⟩
      -- a state of this generation is of a binding of the pass
      change state.lastGeneration = p.generation at hNow
      rw [hNow] at hSpec
      rcases List.mem_map.mp ((hKeys _).mpr hSpec) with ⟨b, hMem, rfl⟩
      rcases hDebounced b hMem rfl with ⟨inputs, hResult⟩
      rw [hSum]
      exact (hBacked (by omega)).step hMem hResult

/-
  Whenever a binding is left alone, its last export succeeded and is stored, with the checksum that
  was compared.
-/
theorem debounced_exports_are_persisted (invKey : Text) (specKeys : Int → List Text)
    (status : List SinkExportStatus) (generation : Int) (events : List ExportEvent)
    (hOrderly : Run.Along (step invKey) (Orderly specKeys) (start status generation) events) :
    Run.Along (step invKey) (fun s e => ∀ p, e = .pass p → ∀ b ∈ p.bindings, ∀ inputs,
        s.result invKey p b = .debounced inputs → Backed s b.exportKey inputs.checksum)
      (start status generation) events := by
  have hStart : Grounded invKey specKeys (start status generation) := by
    intro exportKey state hLook
    cases hLook
  refine (Run.along_invariant grounded_step hStart hOrderly).imp ?_
  rintro s e ⟨hGrounded, hOrder⟩ p rfl b hMem inputs hResult
  rcases result_debounced s p hMem hResult with ⟨hNow, state, hLook, rfl⟩
  rcases hGrounded _ state hLook with ⟨-, hOlder, hBacked⟩
  have hGen : s.generation ≤ p.generation := hOrder.1
  refine hBacked ?_
  change state.lastGeneration = p.generation at hNow
  omega

/- The second of two passes leaves the binding alone. -/
theorem second_pass_is_backed :
    ((start [] 1).step ("n/i" : Text) (.pass (onePass 7))).result ("n/i" : Text) (onePass 9)
        ((onePass 9).bindings.head (List.cons_ne_nil _ _)) =
      .debounced ⟨⟨("u" : Text), ("v" : Text), 1⟩, 1, ("c" : Text), []⟩ ∧
    Run.Along (step ("n/i" : Text)) (fun s e => ∀ p, e = .pass p → ∀ b ∈ p.bindings, ∀ inputs,
        s.result ("n/i" : Text) p b = .debounced inputs → Backed s b.exportKey inputs.checksum)
      (start [] 1) [.pass (onePass 7), .pass (onePass 9)] := by
  refine ⟨rfl, debounced_exports_are_persisted _
    (fun _ => [("s/a" : Text)]) _ _ _ ⟨?_, ?_, trivial⟩⟩
  · exact ⟨le_refl (1 : Int), fun _ => Iff.rfl⟩
  · exact ⟨le_refl (1 : Int), fun _ => Iff.rfl⟩

end ExportSystem

end Controller
end Kollect
