import Kollect.Controller.Rollup
import Kollect.Controller.SinkStatus
import Kollect.Export.Bounds
import Kollect.Sink.CircuitBreaker

/-
  The first look at the bindings of an inventory, beside the export pass it stands in for
  (`previewAllSinksDebounced` and `exportToSinks` of `controller/kollectinventory_controller.go`).

  Both go over the bindings and ask the tracker. The pass asks with the checksum of the parts for a
  snapshot sink and with the fingerprint for any other; the first look always asks with the
  fingerprint.

  Key theorems include:
    * `exists_shows_exportToSinks`
    * `previewAllSinksDebounced_shown`
    * `plan_of_previewLoop`
    * `preview_agrees_with_export`
-/

namespace Kollect

namespace Controller

namespace Preview

open Collect
open Export
open Sink

----
-- Intervals
----

def second : Int := 1000000000

def zeroIntervalWatchdog : Int := 30 * second

def resolveSinkExportInterval (refInterval sinkInterval : Option Int)
    (inventoryDefault scopeFloor : Int) : Int :=
  let chosen := (refInterval.or sinkInterval).getD inventoryDefault
  if 0 < scopeFloor ∧ (chosen = 0 ∨ chosen < scopeFloor) then scopeFloor
  else chosen

def resolveBindingMaxExportBytes (override : Option Int) (fallback : Int) : Int :=
  match override with
  | some bytes => if 0 < bytes then bytes else fallback
  | none => fallback

def requeueAfterForZeroInterval (interval : Int) : Int :=
  if 0 < interval then interval else zeroIntervalWatchdog

def mergeRequeueAfter (current next : Int) : Int :=
  if current = 0 ∨ next < current then next else current

def nextDue (t : Tracker) (key : Text) (interval now : Int) : Int :=
  if interval = 0 then zeroIntervalWatchdog
  else
    match t.lookup key with
    | none => second
    | some state =>
      if state.lastExport = 0 then second
      else
        let remaining := interval - (now - state.lastExport)
        if remaining < second then second else remaining

----
-- Status Entries
----

structure Condition where
  type_ : Text
  status : Bool
  reason : Text
  message : Text
  observedGeneration : Int
  lastTransitionTime : Int
  deriving DecidableEq

/- `apimeta.SetStatusCondition`, with a time that is not zero. -/
def setStatusCondition (conditions : List Condition) (new : Condition) : List Condition :=
  if conditions.any (fun old => old.type_ = new.type_) then
    conditions.map fun old =>
      if old.type_ = new.type_ then
        { new with
          lastTransitionTime :=
            if old.status = new.status then old.lastTransitionTime
            else new.lastTransitionTime }
      else old
  else conditions ++ [new]

structure Entry where
  name : Text
  lastExportTime : Option Int
  lastChecksum : Text
  lastExportPaths : List Text
  conditions : List Condition
  deriving DecidableEq

def upsertSinkExportStatus (entries : List Entry) (name : Text) : List Entry :=
  if entries.any (fun entry => entry.name = name) then entries
  else entries ++ [⟨name, none, [], [], []⟩]

def changeEntry (entries : List Entry) (name : Text) (change : Entry → Entry) : List Entry :=
  entries.map fun entry => if entry.name = name then change entry else entry

def carryOverSinkExport (previous : List Entry) (exportKey : Text) (entry : Entry) : Entry :=
  match previous.find? (fun old => old.name = exportKey) with
  | none => entry
  | some seed => { seed with name := entry.name }

----
-- A Pass
----

def familyText : SinkFamily → Text
  | .snapshot => "snapshot"
  | .database => "database"
  | .event => "event"

structure SinkBinding where
  family : SinkFamily
  name : Text
  exportMinInterval : Option Int
  maxExportBytes : Option Int
  deriving DecidableEq

def sinkExportKey (family : SinkFamily) (name : Text) : Text := familyText family ++ '/' :: name

def SinkBinding.exportKey (b : SinkBinding) : Text := sinkExportKey b.family b.name

structure ResolvedSink where
  uid : Text
  generation : Int
  exportMinInterval : Option Int

/-
  What a reconcile has read of an inventory at one instant. `redact` and `showDuration` are the
  texts of `redact.Text` and of a duration. A key of an object has no NUL.
-/
structure InventoryView where
  invKey : Text
  uid : Text
  generation : Int
  requestedAt : Text
  bindings : List SinkBinding
  previous : List Entry
  load : SinkBinding → Except ExportError ResolvedSink
  defaultInterval : Int
  scopeFloor : Int
  inventoryCeiling : Int
  now : Int
  exportedAt : Text
  redact : Text → Text
  showDuration : Int → Text
  invKey_noNul : '\x00' ∉ invKey

structure Outcome where
  exportedCount : Nat
  debouncedCount : Nat
  failures : List (Text × ExportError)
  sinkExports : List Entry
  requeueAfter : Int
  exportedSinks : List Text

structure SinkJob where
  binding : SinkBinding
  inputs : ExportInputs
  interval : Int
  parts : List EnvelopePartition

structure PassState where
  tracker : Tracker
  outcome : Outcome
  jobs : List SinkJob

namespace InventoryView

variable (v : InventoryView)

def interval (b : SinkBinding) (sink : ResolvedSink) : Int :=
  resolveSinkExportInterval b.exportMinInterval
    sink.exportMinInterval v.defaultInterval v.scopeFloor

def inputs (sink : ResolvedSink) (checksum : Text) : ExportInputs :=
  ⟨⟨v.uid, sink.uid, sink.generation⟩, v.generation, checksum, v.requestedAt⟩

def key (b : SinkBinding) : Text := trackerKey v.invKey b.exportKey

def setSinkExportSynced (time : Int) (ok : Bool) (reason message : Text) (entry : Entry) : Entry :=
  { entry with
    conditions := setStatusCondition entry.conditions
        ⟨"Synced", ok, reason, v.redact message, v.generation, time⟩ }

def setSinkExportDebounced (interval : Int) : Entry → Entry :=
  v.setSinkExportSynced v.now true "Debounced"
    (if interval = 0 then
      "payload unchanged since the last export; exports only on change (interval 0s)"
    else
      ("payload unchanged since the last export; re-exported every " : Text) ++
        v.showDuration interval)

/- The entry of a binding is put in place and seeded. -/
def seedEntry (outcome : Outcome) (b : SinkBinding) : Outcome :=
  { outcome with
    sinkExports := changeEntry (upsertSinkExportStatus outcome.sinkExports b.exportKey) b.exportKey
        (carryOverSinkExport v.previous b.exportKey) }

/- A binding that is up to date. -/
def debounce (t : Tracker) (b : SinkBinding) (interval : Int) (outcome : Outcome) : Outcome :=
  { outcome with
    debouncedCount := outcome.debouncedCount + 1
    sinkExports := changeEntry outcome.sinkExports b.exportKey (v.setSinkExportDebounced interval)
    requeueAfter := mergeRequeueAfter outcome.requeueAfter (nextDue t (v.key b) interval v.now) }

def sinkExportFailureReason (err : ExportError) : Text :=
  if err.spillRequired then "SpillRequired" else "ExportFailed"

def failSinkExport (time : Int) (s : PassState) (b : SinkBinding) (err : ExportError) : PassState :=
  { s with
    tracker := s.tracker.forget (v.key b)
    outcome :=
      { s.outcome with
        failures := s.outcome.failures ++ [(b.exportKey, err)]
        sinkExports := changeEntry s.outcome.sinkExports b.exportKey
            (v.setSinkExportSynced time false (sinkExportFailureReason err) err.message) } }

def emptyOutcome : Outcome := ⟨0, 0, [], [], v.defaultInterval, []⟩

section Export

variable (S : Sorter Text) (sha : Digest) (items : List Item) (checksum : Text)

def metadata : Metadata where
  generation := v.generation
  cluster := []
  exportedAt := v.exportedAt
  partIndex := 0
  partTotal := 0

/- Only a snapshot sink is exported in parts. -/
def ceiling (b : SinkBinding) : Int :=
  if b.family ≠ .snapshot then 0
  else resolveBindingMaxExportBytes b.maxExportBytes v.inventoryCeiling

def parts (b : SinkBinding) : Except Text (List EnvelopePartition) :=
  Wire.partitionEnvelopes S sha items v.metadata (v.ceiling b)

def sinkChecksum (b : SinkBinding) (parts : List EnvelopePartition) : Text :=
  if b.family = .snapshot then Wire.partitionsChecksum sha parts
  else checksum

def planBinding (s : PassState) (b : SinkBinding) : PassState :=
  let s := { s with outcome := v.seedEntry s.outcome b }
  match v.load b with
  | .error err => v.failSinkExport v.now s b err
  | .ok sink =>
    let interval := v.interval b sink
    match v.parts S sha items b with
    | .error err => v.failSinkExport v.now s b ⟨err, false⟩
    | .ok parts =>
      let inputs := v.inputs sink (sinkChecksum sha checksum b parts)
      let (tracker, skip) := s.tracker.shouldSkip (v.key b) inputs interval v.now
      if skip then
        { s with
          tracker
          outcome := v.debounce tracker b interval s.outcome }
      else
        { s with
          tracker
          jobs := s.jobs ++ [⟨b, inputs, interval, parts⟩] }

def plan (t : Tracker) : PassState :=
  v.bindings.foldl (v.planBinding S sha items checksum) ⟨t, v.emptyOutcome, []⟩

end Export

def finishJob (run : SinkJob → Except ExportError (List Text))
    (exportTime : SinkJob → Int) (s : PassState) (job : SinkJob) : PassState :=
  match run job with
  | .error err => v.failSinkExport (exportTime job) s job.binding err
  | .ok written =>
    { s with
      tracker := s.tracker.record (v.key job.binding) job.inputs v.now
      outcome :=
        { s.outcome with
          exportedCount := s.outcome.exportedCount + 1
          exportedSinks := s.outcome.exportedSinks ++ [job.binding.exportKey]
          sinkExports :=
            changeEntry s.outcome.sinkExports
              job.binding.exportKey
              (fun entry =>
                v.setSinkExportSynced (exportTime job) true
                  "Exported" "export completed"
                  { entry with
                    lastExportTime := some (exportTime job)
                    lastChecksum := job.inputs.checksum
                    lastExportPaths := recordExportPaths written entry.lastExportPaths })
          requeueAfter :=
            mergeRequeueAfter s.outcome.requeueAfter (requeueAfterForZeroInterval job.interval) } }

end InventoryView

/- How the jobs of a pass come out, in the order in which they finish. -/
structure JobRun where
  run : SinkJob → Except ExportError (List Text)
  exportTime : SinkJob → Int
  arrange : List SinkJob → List SinkJob
  arranged : ∀ jobs, (arrange jobs).Perm jobs

def exportToSinks (S : Sorter Text) (sha : Digest) (v : InventoryView)
    (jobRun : JobRun) (items : List Item) (checksum : Text) (t : Tracker) : PassState :=
  let planned := v.plan S sha items checksum t
  (jobRun.arrange planned.jobs).foldl (v.finishJob jobRun.run jobRun.exportTime) planned

/- Binding after binding, as long as they are up to date. -/
def previewLoop (v : InventoryView) (checksum : Text) :
    List SinkBinding → Tracker → Outcome → Tracker × Option Outcome
  | [], t, outcome => (t, some outcome)
  | b :: bindings, t, outcome =>
    let outcome := v.seedEntry outcome b
    match v.load b with
    | .error _ => (t, none)
    | .ok sink =>
      let interval := v.interval b sink
      let (t, skip) := t.shouldSkip (v.key b) (v.inputs sink checksum) interval v.now
      if skip then previewLoop v checksum bindings t (v.debounce t b interval outcome)
      else (t, none)

def previewAllSinksDebounced (v : InventoryView) (checksum : Text)
    (t : Tracker) : Tracker × Option Outcome :=
  if v.bindings = [] then (t, none)
  else
    let (t, found) := previewLoop v checksum v.bindings t v.emptyOutcome
    (t, found.filter fun outcome => outcome.debouncedCount = v.bindings.length)

----
-- The Pass Of The Status
----

/-
  `Kollect.Controller.SinkStatus` has a pass of its own, over what the bindings come to. It decides
  as this one does; the entries of the status are not compared.
-/

namespace InventoryView

variable (v : InventoryView) (S : Sorter Text) (sha : Digest) (items : List Item) (checksum : Text)

/- The job of a binding, if it is due. -/
def jobFor (b : SinkBinding) : Except ExportError SinkJob := do
  let sink ← v.load b
  let parts ← (v.parts S sha items b).mapError (⟨·, false⟩)
  pure ⟨b, v.inputs sink (sinkChecksum sha checksum b parts), v.interval b sink, parts⟩

variable (jobRun : JobRun)

def shown (b : SinkBinding) : Controller.SinkBinding where
  exportKey := b.exportKey
  resolved := (v.load b).map fun sink => ⟨sink.uid, sink.generation, v.interval b sink⟩
  checksum := (v.jobFor S sha items checksum b).map (·.inputs.checksum)
  export_ := v.jobFor S sha items checksum b >>= jobRun.run
  exportedAt := (v.jobFor S sha items checksum b).toOption.elim v.now jobRun.exportTime

def shownJob (job : SinkJob) : Controller.SinkJob :=
  ⟨v.shown S sha items checksum jobRun job.binding, job.inputs⟩

/- The pass, with its jobs in the order they finish. The write of the status is left out. -/
def shownPass (t : Tracker) (hNodup : (v.bindings.map SinkBinding.exportKey).Nodup) :
    InventoryPass where
  inventoryUID := v.uid
  generation := v.generation
  requestedAt := v.requestedAt
  now := v.now
  fingerprint := checksum
  bindings := v.bindings.map (v.shown S sha items checksum jobRun)
  arrange jobs :=
    let planned := (v.plan S sha items checksum t).jobs
    let shownJob := v.shownJob S sha items checksum jobRun
    if jobs = planned.map shownJob then (jobRun.arrange planned).map shownJob else jobs
  stale := none
  written := false
  nodup := by rwa [List.map_map]
  arranged jobs := by
    dsimp only
    split_ifs with hJobs
    · exact hJobs ▸ (jobRun.arranged _).map _
    · exact .refl _
  fresh _ := rfl

/- The two passes at one point. -/
structure Shows (s : PassState) (s' : Controller.PassState) : Prop where
  tracker : s'.tracker = s.tracker
  exportedCount : s'.outcome.exportedCount = s.outcome.exportedCount
  debouncedCount : s'.outcome.debouncedCount = s.outcome.debouncedCount
  failedSinks : s'.outcome.failedSinks = s.outcome.failures.map Prod.fst
  exportedSinks : s'.outcome.exportedSinks = s.outcome.exportedSinks
  jobs : s'.jobs = s.jobs.map (v.shownJob S sha items checksum jobRun)
  due : ∀ job ∈ s.jobs, v.jobFor S sha items checksum job.binding = .ok job

end InventoryView

section Shown

variable {S : Sorter Text} {sha : Digest} {items : List Item} {checksum : Text} {v : InventoryView}
  {jobRun : JobRun} {b : SinkBinding} {s : PassState} {s' : Controller.PassState}

theorem InventoryView.Shows.map_failures (h : v.Shows S sha items checksum jobRun s s')
    (exportKey : Text) (err : ExportError) : s'.outcome.failedSinks ++ [exportKey] =
      (s.outcome.failures ++ [(exportKey, err)]).map Prod.fst := by
  rw [List.map_append, ← h.failedSinks]
  rfl

theorem planBinding_eq : v.planBinding S sha items checksum s b =
      let seeded := { s with outcome := v.seedEntry s.outcome b }
      match v.jobFor S sha items checksum b with
      | .error err => v.failSinkExport v.now seeded b err
      | .ok job =>
        let (tracker, skip) := s.tracker.shouldSkip (v.key b) job.inputs job.interval v.now
        if skip then
          { seeded with tracker, outcome := v.debounce tracker b job.interval seeded.outcome }
        else { seeded with tracker, jobs := s.jobs ++ [job] } := by
  unfold InventoryView.planBinding InventoryView.jobFor
  cases v.load b with
  | error err => rfl
  | ok sink => cases v.parts S sha items b <;> rfl

theorem binding_of_jobFor {job : SinkJob} (hJob : v.jobFor S sha items checksum b = .ok job) :
    job.binding = b := by
  rcases Fallible.bind_eq_ok.mp hJob with ⟨sink, -, hRest⟩
  rcases Fallible.bind_eq_ok.mp hRest with ⟨parts, -, hPure⟩
  cases hPure
  rfl

variable {t₀ : Tracker} {hNodup : (v.bindings.map SinkBinding.exportKey).Nodup} {p : InventoryPass}
  (hP : p = v.shownPass S sha items checksum jobRun t₀ hNodup)

include hP

theorem verdict_shown (t : Tracker) : verdict v.invKey p t (v.shown S sha items checksum jobRun b) =
      match v.jobFor S sha items checksum b with
      | .error err => .failed err
      | .ok job =>
        if (t.shouldSkip (v.key b) job.inputs job.interval v.now).2 then
          .debounced job.inputs job.interval
        else .due job.inputs := by
  subst hP
  unfold verdict InventoryView.shown InventoryView.jobFor
  cases v.load b with
  | error err => rfl
  | ok sink => cases v.parts S sha items b <;> rfl

theorem shows_planBinding (previous : List SinkExportStatus) (b : SinkBinding)
    (h : v.Shows S sha items checksum jobRun s s') :
    v.Shows S sha items checksum jobRun (v.planBinding S sha items checksum s b)
      (planBinding v.invKey p previous s' (v.shown S sha items checksum jobRun b)) := by
  unfold planBinding
  rw [planBinding_eq, verdict_shown hP, h.tracker]
  cases hJob : v.jobFor S sha items checksum b with
  | error err =>
    exact ⟨rfl, h.exportedCount, h.debouncedCount, h.map_failures b.exportKey err, h.exportedSinks,
      h.jobs, h.due⟩
  | ok job =>
    dsimp only
    split_ifs with hSkip
    · refine ⟨hP ▸ rfl, h.exportedCount, ?_, h.failedSinks, h.exportedSinks, h.jobs, h.due⟩
      exact congrArg (· + 1) h.debouncedCount
    · refine ⟨?_, h.exportedCount, h.debouncedCount, h.failedSinks, h.exportedSinks, ?_, ?_⟩
      · rw [Tracker.shouldSkip_of_due _ _ _ _ _ (Bool.not_eq_true _ |>.mp hSkip)]
      · simp [h.jobs, InventoryView.shownJob, binding_of_jobFor hJob]
      · rw [List.forall_mem_append, List.forall_mem_singleton, binding_of_jobFor hJob]
        exact ⟨h.due, hJob⟩

theorem shows_finishJob (h : v.Shows S sha items checksum jobRun s s') (job : SinkJob)
    (hJob : v.jobFor S sha items checksum job.binding = .ok job) :
    v.Shows S sha items checksum jobRun (v.finishJob jobRun.run jobRun.exportTime s job)
      (finishJob v.invKey p s' (v.shownJob S sha items checksum jobRun job)) := by
  have hExport : (v.shownJob S sha items checksum jobRun job).binding.export_ = jobRun.run job := by
    rw [InventoryView.shownJob, InventoryView.shown, hJob]
    rfl
  unfold InventoryView.finishJob finishJob
  rw [hExport, h.tracker]
  cases jobRun.run job with
  | error err =>
    exact ⟨rfl, h.exportedCount, h.debouncedCount, h.map_failures job.binding.exportKey err,
      h.exportedSinks, h.jobs, h.due⟩
  | ok written =>
    refine ⟨hP ▸ rfl, ?_, h.debouncedCount, h.failedSinks, ?_, h.jobs, h.due⟩
    · exact congrArg (· + 1) h.exportedCount
    · exact congrArg (· ++ [job.binding.exportKey]) h.exportedSinks

theorem previewLoop_shown (bindings : List SinkBinding) (t : Tracker) (outcome : Outcome) :
    Controller.previewLoop v.invKey p (bindings.map (v.shown S sha items checksum jobRun)) t =
        ((previewLoop v checksum bindings t outcome).1,
          (previewLoop v checksum bindings t outcome).2.isSome) ∧
      ∀ found ∈ (previewLoop v checksum bindings t outcome).2,
        found.debouncedCount = outcome.debouncedCount + bindings.length := by
  induction bindings generalizing t outcome with
  | nil => exact ⟨rfl, fun _ hFound => Option.some.inj hFound ▸ rfl⟩
  | cons b bindings ih =>
    rw [List.map_cons, previewLoop, Controller.previewLoop]
    simp only [InventoryView.shown]
    cases v.load b with
    | error err => exact ⟨rfl, by simp⟩
    | ok sink =>
      have hInputs : inputsOf p ⟨sink.uid, sink.generation, v.interval b sink⟩ p.fingerprint =
          v.inputs sink checksum := hP ▸ rfl
      have hNow : p.now = v.now := hP ▸ rfl
      have hKey : trackerKey v.invKey b.exportKey = v.key b := rfl
      simp only [Except.map, hInputs, hNow, hKey]
      split_ifs
      · refine ⟨(ih _ _).1, fun found hFound => ((ih _ _).2 found hFound).trans ?_⟩
        exact Nat.add_right_comm _ _ _
      · exact ⟨rfl, by simp⟩

end Shown

/-
  The two passes leave one tracker, and with the same sinks exported, debounced and failed. This
  holds whatever the status had before.
-/
theorem exists_shows_exportToSinks (S : Sorter Text) (sha : Digest) (v : InventoryView)
    (jobRun : JobRun) (items : List Item) (checksum : Text) (t : Tracker)
    (previous : List SinkExportStatus) (hNodup : (v.bindings.map SinkBinding.exportKey).Nodup) :
    ∃ done, v.Shows S sha items checksum jobRun (exportToSinks S sha v jobRun items checksum t)
        done ∧
      Controller.exportToSinks v.invKey (v.shownPass S sha items checksum jobRun t hNodup)
        previous t = (done.tracker, done.outcome) := by
  generalize hP : v.shownPass S sha items checksum jobRun t hNodup = p
  have hBindings : p.bindings = v.bindings.map (v.shown S sha items checksum jobRun) := hP ▸ rfl
  have hArrange : p.arrange (List.map (v.shownJob S sha items checksum jobRun)
      (v.plan S sha items checksum t).jobs) = (jobRun.arrange
        (v.plan S sha items checksum t).jobs).map (v.shownJob S sha items checksum jobRun) := by
    subst hP
    exact if_pos rfl
  have hPlan : v.Shows S sha items checksum jobRun (v.plan S sha items checksum t)
      (v.bindings.foldl (fun s' b => planBinding v.invKey p previous s'
        (v.shown S sha items checksum jobRun b)) ⟨t, emptyOutcome, []⟩) :=
    List.foldl_rel ⟨rfl, rfl, rfl, rfl, rfl, rfl, nofun⟩
      fun b _ _ _ => shows_planBinding hP.symm previous b
  refine ⟨_, List.foldl_rel hPlan fun job hMem _ _ hShows => shows_finishJob hP.symm hShows job
    (hPlan.due job ((jobRun.arranged _).mem_iff.mp hMem)), ?_⟩
  unfold Controller.exportToSinks
  dsimp only
  rw [hBindings, List.foldl_map, hPlan.jobs, hArrange, List.foldl_map]

/- The first looks find the same, and leave one tracker. -/
theorem previewAllSinksDebounced_shown (S : Sorter Text) (sha : Digest) (v : InventoryView)
    (jobRun : JobRun) (items : List Item) (checksum : Text) (t : Tracker)
    (hNodup : (v.bindings.map SinkBinding.exportKey).Nodup) :
    Controller.previewAllSinksDebounced v.invKey
        (v.shownPass S sha items checksum jobRun t hNodup) t =
      ((previewAllSinksDebounced v checksum t).1,
        (previewAllSinksDebounced v checksum t).2.isSome) := by
  have hLoop := previewLoop_shown (Eq.refl (v.shownPass S sha items checksum jobRun t hNodup))
    v.bindings t v.emptyOutcome
  have hEmpty : (v.shownPass S sha items checksum jobRun t hNodup).bindings = [] ↔
      v.bindings = [] := List.map_eq_nil_iff
  unfold Controller.previewAllSinksDebounced previewAllSinksDebounced
  simp only [hEmpty]
  split_ifs
  · rfl
  · refine hLoop.1.trans (congrArg (Prod.mk _) ?_)
    cases hFound : (previewLoop v checksum v.bindings t v.emptyOutcome).2 with
    | none => rfl
    | some found => simp [hLoop.2 found hFound, InventoryView.emptyOutcome]

----
-- Checksums Of Parts
----

/- The text that `PartitionsChecksum` takes the digest of. -/
def partLines (parts : List EnvelopePartition) : Text :=
  parts.flatMap fun part => part.checksum ++ ['\n']

variable {S : Sorter Text} {sha : Digest} {items : List Item} {parts : List EnvelopePartition}

theorem checksum_of_mem_parts {metadata : Metadata} {maxBytes : Int}
    (hParts : Wire.partitionEnvelopes S sha items metadata maxBytes = .ok parts)
    {part : EnvelopePartition} (hMem : part ∈ parts) : ∃ text, part.checksum = sha.hex text := by
  rcases Fallible.bind_eq_ok.mp hParts with ⟨sorted, -, hGroups⟩
  rcases Fallible.bind_eq_ok.mp hGroups with ⟨groups, -, hPure⟩
  rw [← Except.ok.inj hPure] at hMem
  rcases List.mem_mapIdx.mp hMem with ⟨i, hIndex, rfl⟩
  exact ⟨_, checksum_envelopeOf sha _ (partMetadata metadata (i + 1) groups.length)⟩

/- The text of an array of rows is not that of any parts. -/
theorem partLines_ne_rowsText {metadata : Metadata} {maxBytes : Int}
    (hParts : Wire.partitionEnvelopes S sha items metadata maxBytes = .ok parts)
    (rows : List Item) : partLines parts ≠ rowsText S rows := by
  intro hEq
  have hOpen : '[' ∈ partLines parts := by
    rw [hEq]
    exact List.mem_cons_self
  rcases List.mem_flatMap.mp hOpen with ⟨part, hMem, hRune⟩
  rcases checksum_of_mem_parts hParts hMem with ⟨text, hSum⟩
  rw [hSum] at hRune
  rcases List.mem_append.mp hRune with hDigit | hLine
  · exact absurd (sha.digits text '[' hDigit) (by decide)
  · exact absurd hLine (by decide)

----
-- Earlier Passes
----

/- What the tracker of the reconciler lives through. -/
inductive PassEvent where
  | exportPass (v : InventoryView) (jobRun : JobRun) (items : List Item) (checksum : Text)
  | preview (v : InventoryView) (checksum : Text)
  | forget (invKey exportKey : Text)

def PassEvent.step (S : Sorter Text) (sha : Digest) (t : Tracker) : PassEvent → Tracker
  | .exportPass v jobRun items checksum => (exportToSinks S sha v jobRun items checksum t).tracker
  | .preview v checksum => (previewAllSinksDebounced v checksum t).1
  | .forget invKey exportKey => t.forget (trackerKey invKey exportKey)

/- The lines of the parts that a pass makes for its snapshot sinks. -/
def passLines (S : Sorter Text) (sha : Digest) (v : InventoryView)
    (items : List Item) : List Text :=
  (v.bindings.filter (·.family = .snapshot)).filterMap fun b =>
    (v.parts S sha items b).toOption.map partLines

/- All texts the passes of a run took a digest of as parts. -/
def hashedLines (S : Sorter Text) (sha : Digest) (events : List PassEvent) : List Text :=
  events.flatMap fun event =>
    match event with
    | .exportPass v _ items _ => passLines S sha v items
    | _ => []

theorem mem_passLines {v : InventoryView} {text : Text} :
    text ∈ passLines S sha v items ↔ ∃ b ∈ v.bindings, b.family = .snapshot ∧
        ∃ parts, v.parts S sha items b = .ok parts ∧ partLines parts = text := by
  rw [passLines, List.mem_filterMap]
  apply exists_congr
  intro b
  rw [List.mem_filter, decide_eq_true_eq, and_assoc]
  apply and_congr_right
  intro _
  apply and_congr_right
  intro _
  cases v.parts S sha items b <;> simp [Except.toOption]

theorem ne_rowsText_of_mem_hashedLines {events : List PassEvent} {text : Text}
    (hMem : text ∈ hashedLines S sha events) (rows : List Item) : text ≠ rowsText S rows := by
  rcases List.mem_flatMap.mp hMem with ⟨event, -, hEvent⟩
  cases event with
  | exportPass v jobRun items checksum =>
    rcases mem_passLines.mp hEvent with ⟨b, -, -, parts, hParts, rfl⟩
    exact partLines_ne_rowsText hParts rows
  | preview | forget => exact nomatch hEvent

/- Every baseline of a snapshot sink is the digest of the lines of some parts. -/
def PartBaselines (sha : Digest) (lines : List Text) (t : Tracker) : Prop :=
  ∀ invKey name state, '\x00' ∉ invKey →
    t.lookup (trackerKey invKey (sinkExportKey .snapshot name)) = some state →
      ∃ text ∈ lines, state.lastChecksum = sha.hex text

/- The jobs for snapshot sinks have checksums of such lines. -/
structure PartJobs (sha : Digest) (lines : List Text) (s : PassState) : Prop where
  baselines : PartBaselines sha lines s.tracker
  checksums :
    ∀ job ∈ s.jobs, job.binding.family = .snapshot →
      ∃ text ∈ lines, job.inputs.checksum = sha.hex text

section Baselines

variable {S : Sorter Text} {sha : Digest} {lines : List Text} {t : Tracker}

theorem PartBaselines.within {t' : Tracker} (hWithin : t'.Within t)
    (hT : PartBaselines sha lines t) : PartBaselines sha lines t' := by
  intro invKey name state hNul hLook
  rcases hWithin _ state hLook with ⟨old, hOld, hInputs⟩
  have hSum : state.lastChecksum = old.lastChecksum := congrArg ExportInputs.checksum hInputs
  rw [hSum]
  exact hT invKey name old hNul hOld

theorem PartBaselines.mono {lines' : List Text} (hSub : lines ⊆ lines')
    (hT : PartBaselines sha lines t) : PartBaselines sha lines' t := by
  intro invKey name state hNul hLook
  rcases hT invKey name state hNul hLook with ⟨text, hMem, hSum⟩
  exact ⟨text, hSub hMem, hSum⟩

theorem familyText_noSlash (family : SinkFamily) : '/' ∉ familyText family := by
  cases family <;> decide

theorem familyText_inj {f g : SinkFamily} (hEq : familyText f = familyText g) : f = g := by
  revert hEq
  cases f <;> cases g <;> decide

variable {v : InventoryView} {b : SinkBinding}

/- A key of the tracker tells the inventory and the family. -/
theorem family_of_key {invKey name : Text} (hNul : '\x00' ∉ invKey)
    (hKey : trackerKey invKey (sinkExportKey .snapshot name) = v.key b) : b.family = .snapshot := by
  have hParts := (Text.append_sep_inj hNul v.invKey_noNul).mp hKey
  have hExport := (Text.append_sep_inj (familyText_noSlash .snapshot)
    (familyText_noSlash b.family)).mp hParts.2
  exact (familyText_inj hExport.1).symm

theorem PartBaselines.record {inputs : ExportInputs}
    (hSum : b.family = .snapshot → ∃ text ∈ lines, inputs.checksum = sha.hex text) (now : Int)
    (hT : PartBaselines sha lines t) : PartBaselines sha lines (t.record (v.key b) inputs now) := by
  intro invKey name state hNul hLook
  rw [Tracker.lookup_record] at hLook
  split_ifs at hLook with hKey
  · rw [← Option.some.inj hLook]
    exact hSum (family_of_key hNul hKey)
  · have hPruned := hT.within (Tracker.within_pruneStaleLocked t now)
    exact hPruned invKey name state hNul hLook

variable {s : PassState}

theorem PartJobs.fail (time : Int) (b : SinkBinding) (err : ExportError)
    (hS : PartJobs sha lines s) : PartJobs sha lines (v.failSinkExport time s b err) where
  baselines := hS.baselines.within (Tracker.within_forget _ _)
  checksums := hS.checksums

theorem PartJobs.plan {items : List Item} {checksum : Text}
    (hLines : passLines S sha v items ⊆ lines) (hMem : b ∈ v.bindings) (hS : PartJobs sha lines s) :
    PartJobs sha lines (v.planBinding S sha items checksum s b) := by
  have hSeeded : PartJobs sha lines { s with outcome := v.seedEntry s.outcome b } :=
    ⟨hS.baselines, hS.checksums⟩
  unfold InventoryView.planBinding
  cases v.load b with
  | error err => exact hSeeded.fail v.now b err
  | ok sink =>
    cases hParts : v.parts S sha items b with
    | error err => exact hSeeded.fail v.now b _
    | ok parts =>
      have hTracker := fun inputs =>
        hS.baselines.within
          (Tracker.within_shouldSkip s.tracker (v.key b) inputs (v.interval b sink) v.now)
      dsimp only
      split_ifs
      · exact ⟨hTracker _, hS.checksums⟩
      · refine ⟨hTracker _, ?_⟩
        intro job hJob hFamily
        rcases List.mem_append.mp hJob with hOld | hNew
        · exact hS.checksums job hOld hFamily
        · rw [List.mem_singleton.mp hNew] at hFamily ⊢
          refine ⟨partLines parts, hLines ?_, ?_⟩
          · exact mem_passLines.mpr ⟨b, hMem, hFamily, parts, hParts, rfl⟩
          · exact if_pos hFamily

theorem PartJobs.finish (jobRun : JobRun) {job : SinkJob}
    (hJob : job.binding.family = .snapshot → ∃ text ∈ lines, job.inputs.checksum = sha.hex text)
    (hS : PartJobs sha lines s) :
    PartJobs sha lines (v.finishJob jobRun.run jobRun.exportTime s job) := by
  unfold InventoryView.finishJob
  cases jobRun.run job with
  | error err => exact hS.fail _ _ _
  | ok written => exact ⟨hS.baselines.record hJob v.now, hS.checksums⟩

theorem partBaselines_exportToSinks (v : InventoryView) (jobRun : JobRun) (items : List Item)
    (checksum : Text) (hLines : passLines S sha v items ⊆ lines) (hT : PartBaselines sha lines t) :
    PartBaselines sha lines (exportToSinks S sha v jobRun items checksum t).tracker := by
  have hPlan : ∀ bindings ⊆ v.bindings, ∀ s,
      PartJobs sha lines s →
        PartJobs sha lines (bindings.foldl (v.planBinding S sha items checksum) s) := by
    intro bindings hSub
    induction bindings with
    | nil => exact fun s hS => hS
    | cons b bindings ih =>
      intro s hS
      have hB := hSub List.mem_cons_self
      exact ih (List.subset_of_cons_subset hSub) _ (hS.plan hLines hB)
  have hPlanned := hPlan v.bindings (List.Subset.refl _)
    ⟨t, v.emptyOutcome, []⟩ ⟨hT, fun _ hJob => nomatch hJob⟩
  have hFinish : ∀ (jobs : List SinkJob) s,
      (∀ job ∈ jobs, job.binding.family = .snapshot →
        ∃ text ∈ lines, job.inputs.checksum = sha.hex text) →
      PartJobs sha lines s →
        PartJobs sha lines (jobs.foldl (v.finishJob jobRun.run jobRun.exportTime) s) := by
    intro jobs
    induction jobs with
    | nil => exact fun s _ hS => hS
    | cons job jobs ih =>
      intro s hJobs hS
      rw [List.forall_mem_cons] at hJobs
      exact ih _ hJobs.2 (hS.finish jobRun hJobs.1)
  refine (hFinish _ _ ?_ hPlanned).baselines
  intro job hJob
  exact hPlanned.checksums job ((jobRun.arranged _).mem_iff.mp hJob)

theorem within_previewLoop (v : InventoryView) (checksum : Text)
    (bindings : List SinkBinding) (t : Tracker) (outcome : Outcome) :
    (previewLoop v checksum bindings t outcome).1.Within t := by
  induction bindings generalizing t outcome with
  | nil => exact Tracker.Within.refl t
  | cons b bindings ih =>
    unfold previewLoop
    cases v.load b with
    | error err => exact Tracker.Within.refl t
    | ok sink =>
      have hSkip := Tracker.within_shouldSkip t (v.key b)
        (v.inputs sink checksum) (v.interval b sink) v.now
      dsimp only
      split_ifs
      · exact (ih _ _).trans hSkip
      · exact hSkip

theorem partBaselines_step (event : PassEvent) (hT : PartBaselines sha lines t) :
    PartBaselines sha (lines ++ hashedLines S sha [event]) (event.step S sha t) := by
  have hMore := hT.mono (List.subset_append_left lines (hashedLines S sha [event]))
  cases event with
  | exportPass v jobRun items checksum =>
    apply partBaselines_exportToSinks v jobRun items checksum
    · intro text hText
      apply List.mem_append_right
      simpa [hashedLines] using hText
    · exact hMore
  | preview v checksum =>
    unfold PassEvent.step previewAllSinksDebounced
    dsimp only
    split_ifs
    · exact hMore
    · exact hMore.within (within_previewLoop _ _ _ _ _)
  | forget invKey exportKey => exact hMore.within (Tracker.within_forget _ _)

/- Whatever passes came before, from an empty tracker on. -/
theorem partBaselines_exec (events : List PassEvent) :
    PartBaselines sha (hashedLines S sha events) (Run.exec (PassEvent.step S sha) ∅ events) := by
  induction events using List.reverseRecOn with
  | nil => exact fun _ _ _ _ hLook => nomatch hLook
  | append_singleton events event ih =>
    rw [Run.exec_append]
    have hStep := @partBaselines_step S sha _ _ event ih
    have hLines : hashedLines S sha (events ++ [event]) =
        hashedLines S sha events ++ hashedLines S sha [event] := by
      simp [hashedLines]
    rw [hLines]
    exact hStep

end Baselines

----
-- Agreement
----

section Agreement

variable {S : Sorter Text} {sha : Digest} {items : List Item} {v : InventoryView}

/- What the fingerprint is of can be exported in one part. -/
theorem exists_part_of_writable (hWritable : Writable items) {b : SinkBinding}
    (hFamily : b.family ≠ .snapshot) : ∃ parts, v.parts S sha items b = .ok parts := by
  have hCeiling : v.ceiling b = 0 := if_pos hFamily
  rw [InventoryView.parts, hCeiling, Wire.partitionEnvelopes_eq hWritable,
    Wire.partitionItemGroups, if_pos (Or.inl (Int.le_refl 0))]
  exact ⟨_, rfl⟩

/- A binding that is found up to date is none of a snapshot. -/
theorem family_of_shouldSkip {lines : List Text} {t : Tracker} {b : SinkBinding}
    {sink : ResolvedSink} (hT : PartBaselines sha lines t)
    (hLines : ∀ text ∈ lines, sha.hex text ≠ sha.hex (rowsText S items))
    (hSkip : (t.shouldSkip (v.key b) (v.inputs sink (sha.hex (rowsText S items)))
      (v.interval b sink) v.now).2 = true) : b.family ≠ .snapshot := by
  intro hFamily
  rcases Tracker.inputs_of_shouldSkip _ _ _ _ _ hSkip with ⟨state, hLook, hInputs⟩
  have hKey : v.key b = trackerKey v.invKey (sinkExportKey .snapshot b.name) := by
    rw [InventoryView.key, SinkBinding.exportKey, hFamily]
  rw [hKey] at hLook
  rcases hT v.invKey b.name state v.invKey_noNul hLook with ⟨text, hMem, hSum⟩
  have hRecorded : state.lastChecksum = sha.hex (rowsText S items) :=
    congrArg ExportInputs.checksum hInputs
  exact hLines text hMem (hSum.symm.trans hRecorded)

/- The loop of the pass does what the first look did. -/
theorem plan_of_previewLoop {lines : List Text} (hWritable : Writable items)
    (hLines : ∀ text ∈ lines, sha.hex text ≠ sha.hex (rowsText S items))
    {bindings : List SinkBinding} {t t' : Tracker} {outcome found : Outcome}
    (jobs : List SinkJob) (hT : PartBaselines sha lines t)
    (hPreview : previewLoop v (sha.hex (rowsText S items)) bindings t outcome = (t', some found)) :
    bindings.foldl (v.planBinding S sha items (sha.hex (rowsText S items)))
        ⟨t, outcome, jobs⟩ = ⟨t', found, jobs⟩ := by
  induction bindings generalizing t outcome with
  | nil =>
    cases hPreview
    rfl
  | cons b bindings ih =>
    rw [previewLoop] at hPreview
    cases hLoad : v.load b with
    | error err =>
      rw [hLoad] at hPreview
      exact nomatch hPreview
    | ok sink =>
      rw [hLoad] at hPreview
      dsimp only at hPreview
      split_ifs at hPreview with hSkip
      · have hFamily := family_of_shouldSkip hT hLines hSkip
        rcases @exists_part_of_writable S sha items v hWritable b hFamily with ⟨parts, hParts⟩
        have hSum : InventoryView.sinkChecksum sha
            (sha.hex (rowsText S items)) b parts = sha.hex (rowsText S items) := if_neg hFamily
        have hNext := hT.within (Tracker.within_shouldSkip t (v.key b)
            (v.inputs sink (sha.hex (rowsText S items))) (v.interval b sink) v.now)
        rw [List.foldl_cons, ← ih hNext hPreview]
        congr 1
        simp only [InventoryView.planBinding, hLoad, hParts, hSum, hSkip, if_true]
      · exact nomatch hPreview

/-
  Whatever passes built the tracker: when the first look finds all bindings up to date, a pass over
  the same rows at the same instant starts no export and comes to the same outcome.
-/
theorem preview_agrees_with_export (events : List PassEvent) (jobRun : JobRun)
    {fingerprint : Text} {t' : Tracker} {outcome : Outcome}
    (hApart : ∀ text ∈ hashedLines S sha events,
      sha.hex text = sha.hex (rowsText S items) → text = rowsText S items)
    (hFingerprint : Wire.itemsFingerprint S sha items = .ok fingerprint)
    (hPreview : previewAllSinksDebounced v fingerprint
        (Run.exec (PassEvent.step S sha) ∅ events) = (t', some outcome)) :
    (v.plan S sha items fingerprint (Run.exec (PassEvent.step S sha) ∅ events)).jobs = [] ∧
      exportToSinks S sha v jobRun items fingerprint (Run.exec (PassEvent.step S sha) ∅ events) =
        ⟨t', outcome, []⟩ := by
  rcases (itemsFingerprint_eq_ok S sha).mp hFingerprint with ⟨hWritable, rfl⟩
  have hLines : ∀ text ∈ hashedLines S sha events, sha.hex text ≠ sha.hex (rowsText S items) := by
    intro text hMem hEq
    exact ne_rowsText_of_mem_hashedLines hMem items (hApart text hMem hEq)
  have hPlan : v.plan S sha items (sha.hex (rowsText S items))
      (Run.exec (PassEvent.step S sha) ∅ events) = ⟨t', outcome, []⟩ := by
    unfold previewAllSinksDebounced at hPreview
    split_ifs at hPreview
    · exact nomatch hPreview
    · rw [Prod.ext_iff] at hPreview
      apply plan_of_previewLoop hWritable hLines [] (partBaselines_exec events)
      exact Prod.ext hPreview.1 (Option.filter_eq_some_iff.mp hPreview.2).1
  refine ⟨by rw [hPlan], ?_⟩
  unfold exportToSinks
  dsimp only
  rw [hPlan, List.perm_nil.mp (jobRun.arranged [])]
  rfl

end Agreement

/- An inventory with some sinks, at an instant. -/
def quietView (bindings : List SinkBinding) (now : Int) : InventoryView where
  invKey := "team-a/main"
  uid := "inv-1"
  generation := 1
  requestedAt := []
  bindings := bindings
  previous := []
  load _ := .ok ⟨"sink-1", 1, none⟩
  defaultInterval := 300 * second
  scopeFloor := 0
  inventoryCeiling := 0
  now := now
  exportedAt := []
  redact := id
  showDuration _ := "5m0s"
  invKey_noNul := by decide

def smoothRun : JobRun where
  run _ := .ok []
  exportTime _ := 100 * second
  arrange jobs := jobs
  arranged _ := .refl _

def warehouse : SinkBinding := ⟨.database, "warehouse", none, none⟩

/- A stand-in digest that tells a text from its digest. -/
def markedDigest : Digest where
  hex s := paddedDigest.hex ('1' :: s)
  length_hex _ := paddedDigest.length_hex _
  digits _ := paddedDigest.digits _

def quietPrint : Text := markedDigest.hex (rowsText Sorter.stable [deploymentRow "uid-1"])

/- The row went to an archive and to the warehouse a hundred seconds ago. -/
def firstPass : List PassEvent :=
  [.exportPass (quietView [⟨.snapshot, "archive", none, none⟩, warehouse] (100 * second)) smoothRun
    [deploymentRow "uid-1"] quietPrint]

/- The archive is no longer bound. -/
theorem quiet_inventory_is_left_alone :
    ∃ t' outcome, previewAllSinksDebounced (quietView [warehouse] (200 * second)) quietPrint
          (Run.exec (PassEvent.step Sorter.stable markedDigest) ∅ firstPass) = (t', some outcome) ∧
        exportToSinks Sorter.stable markedDigest (quietView [warehouse] (200 * second)) smoothRun
            [deploymentRow "uid-1"] quietPrint (Run.exec (PassEvent.step Sorter.stable markedDigest)
              ∅ firstPass) = ⟨t', outcome, []⟩ := by
  have hFingerprint : Wire.itemsFingerprint Sorter.stable markedDigest [deploymentRow "uid-1"] =
      .ok quietPrint := by
    decide +kernel
  have hSome : (previewAllSinksDebounced (quietView [warehouse] (200 * second)) quietPrint
      (Run.exec (PassEvent.step Sorter.stable markedDigest) ∅ firstPass)).2.isSome = true := by
    decide +kernel
  rcases Option.isSome_iff_exists.mp hSome with ⟨outcome, hOutcome⟩
  refine ⟨_, outcome, Prod.ext rfl hOutcome, ?_⟩
  exact (preview_agrees_with_export firstPass smoothRun (by decide +kernel) hFingerprint
    (Prod.ext rfl hOutcome)).2

end Preview

end Controller

end Kollect
