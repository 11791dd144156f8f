import Kollect.Collect.Engine
import Kollect.Foundation.Run
import Mathlib.Logic.Function.Basic

/-
  The dispatch queue and its workers: informer events go through one FIFO queue and any number of
  workers process them (`dispatch`, `dispatchWorker` and `processDispatch` of
  `internal/collect/engine.go`).

  Processing one event is split at the engine's lock sections: `processState` lists the sections a
  worker runs for one target, and every interleaving of the workers' sections is a run of
  `Dispatcher.step`.

  The rows left once the queue has drained are given by `quiescent_row_of_noOverlap`.
-/

----
-- Jobs
----

namespace Kollect

namespace Collect

inductive AccessResult where
  | allowed
  | denied
  | failed
deriving DecidableEq

/-
  An informer event: the object, if it decodes to one, whether it was deleted, and what the access
  check answers for each target key when the event is processed.
-/
structure DispatchJob where
  obj : Option Unstructured
  deleted : Bool
  access : Text → AccessResult

/-
  How attributes are computed: extraction, then scrubbing and the embedded resource of the profile's
  export mode.
-/
structure Pipeline where
  extract : Unstructured → List AttributeSpec → Except Text (GoMap Text Json)
  scrubAndEmbed : KollectProfile → Unstructured → GoMap Text Json → GoMap Text Json

/- The row of an object whose attributes were extracted. -/
def newItem (pipe : Pipeline) (st : TargetState) (u : Unstructured)
    (attrs : GoMap Text Json) : Item where
  targetNamespace := st.target.namespace_
  targetName := st.target.name
  namespace_ := u.namespace_
  name := u.name
  group := st.profile.spec.targetGVK.group
  version := st.profile.spec.targetGVK.version
  kind := st.profile.spec.targetGVK.kind
  uid := u.uid
  attributes := pipe.scrubAndEmbed st.profile u attrs

----
-- Lock Sections
----

/- One section of `processDispatch` under a lock. -/
inductive Effect where
  | storeRemove (namespace_ name uid : Text)
  | upsertIfRegistered (key : Text) (item : Item)
  | setAccessErr (key : Text)
  | clearAccessErr (key : Text)
  | setForbidden (key : Text)
  | clearForbidden (key : Text)
  | recordExtractFailure (key uid errMsg : Text)
  | clearExtractFailure (key uid : Text)

def recordExtractFailure (e : Engine) (key uid errMsg : Text) : Engine :=
  let st := (e.extractErr.lookup key).getD ⟨[], []⟩
  { e with extractErr := e.extractErr.insert key ⟨st.resources.insert uid, errMsg⟩ }

/- The last failing resource takes the entry with it. -/
def clearExtractFailure (e : Engine) (key uid : Text) : Engine :=
  match e.extractErr.lookup key with
  | none => e
  | some st =>
    { e with
      extractErr :=
        let resources := st.resources.filter (fun v => v ≠ uid)
        if resources.isEmpty then e.extractErr.erase key
        else e.extractErr.insert key ⟨resources, st.lastErr⟩ }

/- An item is written only while its target is registered. -/
def upsertIfRegistered (e : Engine) (key : Text) (item : Item) : Engine :=
  if (e.targets.lookup key).isSome then { e with store := e.store.upsert item }
  else e

def Effect.apply (e : Engine) : Effect → Engine
  | .storeRemove ns name uid => { e with store := e.store.remove ns name uid }
  | .upsertIfRegistered key item => Collect.upsertIfRegistered e key item
  | .setAccessErr key => { e with accessErr := e.accessErr.insert key () }
  | .clearAccessErr key => { e with accessErr := e.accessErr.erase key }
  | .setForbidden key => { e with forbidden := e.forbidden.insert key () }
  | .clearForbidden key => { e with forbidden := e.forbidden.erase key }
  | .recordExtractFailure key uid errMsg => Collect.recordExtractFailure e key uid errMsg
  | .clearExtractFailure key uid => Collect.clearExtractFailure e key uid

/- The target states of a resource, as a worker reads them. -/
def snapshot (e : Engine) (gvr : GroupVersionResource) : List TargetState :=
  (e.keysFor gvr).filterMap (fun key => e.targets.lookup key)

/- How the processing of an event ends for one target. -/
inductive Verdict where
  | dropped
  | reviewFailed
  | denied
  | unreadable (err : Text)
  | collected (item : Item)

/- The row a verdict stands for. -/
def Verdict.row : Verdict → Option Item
  | .collected item => some item
  | _ => none

/- The decisions of one iteration of `processDispatch`. -/
def verdict (lib : Libraries) (pipe : Pipeline) (e : Engine)
    (gvr : GroupVersionResource) (u : Unstructured)
    (job : DispatchJob) (st : TargetState) : Verdict :=
  if job.deleted then .dropped
  else if matchesTarget lib e st gvr u ≠ .accepted then .dropped
  else
    match job.access (keyOf st.target) with
    | .failed => .reviewFailed
    | .denied => .denied
    | .allowed =>
      match pipe.extract u st.profile.spec.attributes with
      | .error err => .unreadable err
      | .ok attrs => .collected (newItem pipe st u attrs)

/- The sections an iteration runs, in order. -/
def sections (st : TargetState) (uid : Text) : Verdict → List Effect
  | .dropped =>
    [.storeRemove st.target.namespace_ st.target.name uid,
      .clearExtractFailure (keyOf st.target) uid]
  -- a failed review keeps the previous row
  | .reviewFailed => [.setAccessErr (keyOf st.target)]
  | .denied =>
    [.clearAccessErr (keyOf st.target), .setForbidden (keyOf st.target),
      .storeRemove st.target.namespace_ st.target.name uid]
  | .unreadable err =>
    [.clearAccessErr (keyOf st.target), .clearForbidden (keyOf st.target),
      .storeRemove st.target.namespace_ st.target.name uid,
      .recordExtractFailure (keyOf st.target) uid err]
  | .collected item =>
    [.clearAccessErr (keyOf st.target), .clearForbidden (keyOf st.target),
      .clearExtractFailure (keyOf st.target) uid, .upsertIfRegistered (keyOf st.target) item]

/- The sections a worker runs for one target. -/
def processState (lib : Libraries) (pipe : Pipeline) (e : Engine)
    (gvr : GroupVersionResource) (u : Unstructured)
    (job : DispatchJob) (st : TargetState) : List Effect :=
  sections st u.uid (verdict lib pipe e gvr u job st)

----
-- Workers
----

/-
  A worker is idle, or it holds an object with the target states it has still to process and the
  lock sections of the current one that it has still to run.
-/
inductive Worker where
  | idle
  | running (u : Unstructured) (job : DispatchJob) (states : List TargetState)
      (pending : List Effect)

def Worker.isIdle : Worker → Bool
  | .idle => true
  | .running _ _ _ _ => false

/- Whether the worker processes an event of the resource. -/
def Worker.holds (uid : Text) : Worker → Bool
  | .idle => false
  | .running u _ _ _ => u.uid = uid

/-
  The engine, its queue and its workers. `history` is the list of all events delivered so far; no
  step reads it.
-/
structure Dispatcher (n : Nat) where
  engine : Engine
  queue : List DispatchJob
  workers : Fin n → Worker
  history : List DispatchJob

/- An informer event arrives, or a worker goes on. -/
inductive DispatchLabel (n : Nat) where
  | enqueue (job : DispatchJob)
  | work (w : Fin n)

namespace Dispatcher

variable {n : Nat}

def start (n : Nat) (e : Engine) : Dispatcher n where
  engine := e
  queue := []
  workers _ := .idle
  history := []

def setWorker (s : Dispatcher n) (w : Fin n) (worker : Worker) : Dispatcher n :=
  { s with workers := Function.update s.workers w worker }

@[simp] theorem setWorker_self (s : Dispatcher n) (w : Fin n) (worker : Worker) :
    (s.setWorker w worker).workers w = worker :=
  Function.update_self _ _ _

theorem setWorker_of_ne (s : Dispatcher n) {w w' : Fin n} (hNe : w' ≠ w) (worker : Worker) :
    (s.setWorker w worker).workers w' = s.workers w' :=
  Function.update_of_ne hNe _ _

def step (lib : Libraries) (pipe : Pipeline) (gvr : GroupVersionResource)
    (s : Dispatcher n) : DispatchLabel n → Dispatcher n
  | .enqueue job => { s with queue := s.queue ++ [job], history := s.history ++ [job] }
  | .work w =>
    match s.workers w with
    | .idle =>
      match s.queue with
      | [] => s
      | job :: rest =>
        match job.obj with
        | none => { s with queue := rest }
        | some u => { s with queue := rest }.setWorker w (.running u job (snapshot s.engine gvr) [])
    | .running u job states (eff :: pending) =>
      { s with engine := eff.apply s.engine }.setWorker w (.running u job states pending)
    | .running u job (st :: states) [] =>
      s.setWorker w (.running u job states (processState lib pipe s.engine gvr u job st))
    | .running _ _ [] [] => s.setWorker w .idle

def quiescent (s : Dispatcher n) : Bool :=
  s.queue.isEmpty && decide (∀ w, (s.workers w).isIdle = true)

end Dispatcher

def DispatchJob.uid (job : DispatchJob) : Option Text := job.obj.map Unstructured.uid

def lastEvent (history : List DispatchJob) (uid : Text) : Option DispatchJob :=
  history.reverse.find? (fun job => job.uid = some uid)

/-
  The row an event computes for a target: none for a deleted object or one the target does not
  match, collect or read.
-/
def computedRow (lib : Libraries) (pipe : Pipeline) (e : Engine)
    (gvr : GroupVersionResource) (st : TargetState) (job : DispatchJob) : Option Item :=
  job.obj.bind (fun u => (verdict lib pipe e gvr u job st).row)

/- A worker takes no event of a resource that another worker is still processing. -/
def NoOverlap {n : Nat} (s : Dispatcher n) : DispatchLabel n → Prop
  | .enqueue _ => True
  | .work w =>
    (s.workers w).isIdle = true →
      ∀ uid ∈ s.queue.head?.bind DispatchJob.uid, ∀ w', (s.workers w').holds uid = false

instance decidableNoOverlap {n : Nat} (s : Dispatcher n) : ∀ label, Decidable (NoOverlap s label)
  | .enqueue _ => inferInstanceAs (Decidable True)
  | .work w =>
    inferInstanceAs (Decidable ((s.workers w).isIdle = true →
          ∀ uid ∈ s.queue.head?.bind DispatchJob.uid, ∀ w', (s.workers w').holds uid = false))

----
-- What A Lock Section Does To One Row
----

/- The row of one resource after a section. -/
def Effect.rowAfter (targets : GoMap Text TargetState) (ns name uid : Text)
    (row : Option Item) : Effect → Option Item
  | .storeRemove ns' name' uid' =>
    if ns = ns' ∧ name = name' ∧ uid = uid' then none
    else row
  | .upsertIfRegistered key item =>
    if (targets.lookup key).isSome ∧ ns = item.targetNamespace ∧
        name = item.targetName ∧ uid = item.uid then
      some item
    else row
  | _ => row

theorem clearExtractFailure_eq (e : Engine) (key uid : Text) :
    ∃ failures, clearExtractFailure e key uid = { e with extractErr := failures } := by
  unfold clearExtractFailure
  split
  · exact ⟨e.extractErr, rfl⟩
  · exact ⟨_, rfl⟩

theorem row?_apply (e : Engine) (eff : Effect) (ns name uid : Text) :
    (eff.apply e).store.row? ns name uid =
      eff.rowAfter e.targets ns name uid (e.store.row? ns name uid) := by
  cases eff with
  | storeRemove ns' name' uid' => exact Store.row?_remove _ _ _ _ _ _ _
  | upsertIfRegistered key item =>
    unfold Effect.apply upsertIfRegistered Effect.rowAfter
    by_cases hKey : (e.targets.lookup key).isSome = true
    · simp only [hKey, if_true, true_and, Store.row?_upsert]
    · simp only [hKey, if_false, false_and, Bool.false_eq_true]
  | clearExtractFailure key uid' =>
    rcases clearExtractFailure_eq e key uid' with ⟨failures, hFailures⟩
    simp only [Effect.apply, hFailures, Effect.rowAfter]
  | setAccessErr | clearAccessErr | setForbidden | clearForbidden | recordExtractFailure => rfl

/- Two engines with one registry and one namespace cache. -/
structure SameRegistry (e e' : Engine) : Prop where
  targets : e.targets = e'.targets
  targetsByGVR : e.targetsByGVR = e'.targetsByGVR
  nsMeta : e.nsMeta = e'.nsMeta

theorem SameRegistry.refl (e : Engine) : SameRegistry e e := ⟨rfl, rfl, rfl⟩

theorem SameRegistry.trans {e e' e'' : Engine} (hSame : SameRegistry e e')
    (hNext : SameRegistry e' e'') : SameRegistry e e'' :=
  ⟨hSame.1.trans hNext.1, hSame.2.trans hNext.2, hSame.3.trans hNext.3⟩

theorem sameRegistry_apply {e e' : Engine} (hSame : SameRegistry e e') (eff : Effect) :
    SameRegistry (eff.apply e) e' := by
  cases eff with
  | storeRemove ns name uid => exact ⟨hSame.1, hSame.2, hSame.3⟩
  | upsertIfRegistered key item =>
    simp only [Effect.apply, upsertIfRegistered]
    split_ifs
    · exact ⟨hSame.1, hSame.2, hSame.3⟩
    · exact hSame
  | clearExtractFailure key uid =>
    rcases clearExtractFailure_eq e key uid with ⟨failures, hFailures⟩
    simp only [Effect.apply, hFailures]
    exact ⟨hSame.1, hSame.2, hSame.3⟩
  | setAccessErr key => exact ⟨hSame.1, hSame.2, hSame.3⟩
  | clearAccessErr key => exact ⟨hSame.1, hSame.2, hSame.3⟩
  | setForbidden key => exact ⟨hSame.1, hSame.2, hSame.3⟩
  | clearForbidden key => exact ⟨hSame.1, hSame.2, hSame.3⟩
  | recordExtractFailure key uid errMsg => exact ⟨hSame.1, hSame.2, hSame.3⟩

section Congruence

variable {e e' : Engine} (hSame : SameRegistry e e')
include hSame

theorem snapshot_congr (gvr : GroupVersionResource) : snapshot e gvr = snapshot e' gvr := by
  unfold snapshot Engine.keysFor
  rw [hSame.targets, hSame.targetsByGVR]

end Congruence

section Decisions

variable {e e' : Engine} (hMeta : e.nsMeta = e'.nsMeta)
include hMeta

variable (lib : Libraries) (pipe : Pipeline) (gvr : GroupVersionResource) (u : Unstructured)
  (job : DispatchJob) (st : TargetState)

include lib pipe gvr u job st

theorem verdict_congr : verdict lib pipe e gvr u job st = verdict lib pipe e' gvr u job st := by
  unfold verdict matchesTarget namespaceMatches Engine.namespaceMetaFor
  rw [hMeta]

theorem processState_congr :
    processState lib pipe e gvr u job st = processState lib pipe e' gvr u job st := by
  unfold processState
  rw [verdict_congr hMeta]

end Decisions

----
-- What An Event Does To One Row
----

section Rows

variable (lib : Libraries) (pipe : Pipeline) (e : Engine) (gvr : GroupVersionResource)
variable (ns name uid : Text)

/- The row after a list of sections. -/
def sectionsRow (row : Option Item) (sections : List Effect) : Option Item :=
  Run.exec (Effect.rowAfter e.targets ns name uid) row sections

/- The row after an event was processed for the states. -/
def statesRow (u : Unstructured) (job : DispatchJob) (row : Option Item)
    (states : List TargetState) : Option Item :=
  Run.exec (fun row st => sectionsRow e ns name uid row (processState lib pipe e gvr u job st))
    row states

/- The row after an event was processed. -/
def jobRow (row : Option Item) (job : DispatchJob) : Option Item :=
  match job.obj with
  | none => row
  | some u => statesRow lib pipe e gvr ns name uid u job row (snapshot e gvr)

/- The row after a worker has finished its event. -/
def Worker.rowAfter (row : Option Item) : Worker → Option Item
  | .idle => row
  | .running u job states pending =>
    statesRow lib pipe e gvr ns name uid u job (sectionsRow e ns name uid row pending) states

end Rows

section RowLemmas

variable {lib : Libraries} {pipe : Pipeline} {e : Engine} {gvr : GroupVersionResource}
variable {ns name uid : Text}

variable {u : Unstructured} {job : DispatchJob} {item : Item} {st : TargetState}

theorem verdict_eq_collected (hVerdict : verdict lib pipe e gvr u job st = .collected item) :
    matchesTarget lib e st gvr u = .accepted ∧ ∃ attrs,
        pipe.extract u st.profile.spec.attributes = .ok attrs ∧ item = newItem pipe st u attrs := by
  unfold verdict at hVerdict
  split_ifs at hVerdict with _ hMatch
  split at hVerdict
  · cases hVerdict
  · cases hVerdict
  · split at hVerdict
    · cases hVerdict
    · rename_i attrs hExtract
      cases hVerdict
      exact ⟨not_not.mp hMatch, attrs, hExtract, rfl⟩

theorem verdict_collected (hVerdict : verdict lib pipe e gvr u job st = .collected item) :
    item.targetNamespace = st.target.namespace_ ∧ item.targetName = st.target.name ∧
      item.uid = u.uid := by
  rcases verdict_eq_collected hVerdict with ⟨-, attrs, -, hItem⟩
  rw [hItem]
  exact ⟨rfl, rfl, rfl⟩

/- Only a collected item is written. -/
theorem upsert_mem_processState {key : Text}
    (hMem : Effect.upsertIfRegistered key item ∈ processState lib pipe e gvr u job st) :
    key = keyOf st.target ∧ verdict lib pipe e gvr u job st = .collected item := by
  unfold processState at hMem
  cases hVerdict : verdict lib pipe e gvr u job st with
  | collected item' =>
    simp only [hVerdict, sections, List.mem_cons, reduceCtorEq, false_or,
      Effect.upsertIfRegistered.injEq, List.not_mem_nil, or_false] at hMem
    exact ⟨hMem.1, by rw [hMem.2]⟩
  | dropped | reviewFailed | denied | unreadable => simp [hVerdict, sections] at hMem

variable (hNe : ¬ (ns = st.target.namespace_ ∧ name = st.target.name ∧ uid = u.uid))

include hNe in
/- The sections of a target and a resource keep to them. -/
theorem rowAfter_processState_of_ne {eff : Effect}
    (hMem : eff ∈ processState lib pipe e gvr u job st) (row : Option Item) :
    eff.rowAfter e.targets ns name uid row = row := by
  unfold processState at hMem
  cases eff with
  | storeRemove ns' name' uid' =>
    refine if_neg ?_
    cases hVerdict : verdict lib pipe e gvr u job st <;> simp_all [sections]
  | upsertIfRegistered key item =>
    refine if_neg ?_
    intro hWritten
    rcases verdict_collected (upsert_mem_processState hMem).2 with ⟨hNs, hName, hUid⟩
    rw [hNs, hName, hUid] at hWritten
    exact hNe hWritten.2
  | setAccessErr key => rfl
  | clearAccessErr key => rfl
  | setForbidden key => rfl
  | clearForbidden key => rfl
  | recordExtractFailure key uid' errMsg => rfl
  | clearExtractFailure key uid' => rfl

include hNe in
theorem sectionsRow_processState_of_ne (row : Option Item) :
    sectionsRow e ns name uid row (processState lib pipe e gvr u job st) = row :=
  Run.exec_eq_self (fun _ hMem row => rowAfter_processState_of_ne hNe hMem row)

theorem statesRow_of_uid_ne (hUid : u.uid ≠ uid) (row : Option Item) (states : List TargetState) :
    statesRow lib pipe e gvr ns name uid u job row states = row :=
  Run.exec_eq_self (fun _ _ row => sectionsRow_processState_of_ne (fun h => hUid h.2.2.symm) row)

theorem jobRow_of_uid_ne (hUid : job.uid ≠ some uid) (row : Option Item) :
    jobRow lib pipe e gvr ns name uid row job = row := by
  unfold jobRow
  cases hObj : job.obj with
  | none => rfl
  | some u =>
    refine statesRow_of_uid_ne ?_ row _
    intro hEq
    exact hUid (by simp [DispatchJob.uid, hObj, hEq])

theorem verdict_ne_reviewFailed (hAccess : job.access (keyOf st.target) ≠ .failed) :
    verdict lib pipe e gvr u job st ≠ .reviewFailed := by
  intro hVerdict
  unfold verdict at hVerdict
  split_ifs at hVerdict
  split at hVerdict
  · exact hAccess ‹_›
  · cases hVerdict
  · split at hVerdict <;> cases hVerdict

/- The registered target's own sections compute the row. -/
theorem sectionsRow_processState_own (hObj : job.obj = some u)
    (hKey : e.targets.lookup (keyOf st.target) = some st)
    (hDecided : verdict lib pipe e gvr u job st ≠ .reviewFailed) (row : Option Item) :
    sectionsRow e st.target.namespace_ st.target.name u.uid
        row (processState lib pipe e gvr u job st) = computedRow lib pipe e gvr st job := by
  unfold processState computedRow sectionsRow
  rw [hObj, Option.bind_some]
  cases hVerdict : verdict lib pipe e gvr u job st with
  | dropped | denied | unreadable => simp [sections, Effect.rowAfter, Verdict.row]
  | reviewFailed => exact absurd hVerdict hDecided
  | collected item =>
    rcases verdict_collected hVerdict with ⟨hNs, hName, hUid⟩
    simp [sections, Effect.rowAfter, Verdict.row, hKey, hNs, hName, hUid]

end RowLemmas

----
-- Runs Without Overlap
----

/-
  The registry a run works on: the target's state is found under its key and by the workers, and no
  other state there has the target's namespace and name.
-/
structure RegisteredFor (e : Engine) (gvr : GroupVersionResource) (st : TargetState) : Prop where
  key : e.targets.lookup (keyOf st.target) = some st
  mem : st ∈ snapshot e gvr
  unique :
    ∀ other ∈ snapshot e gvr, other.target.namespace_ = st.target.namespace_ →
        other.target.name = st.target.name → other = st

/- The states of the target's namespace and name. -/
def sameTarget (st other : TargetState) : Bool :=
  other.target.namespace_ = st.target.namespace_ ∧ other.target.name = st.target.name

section Runs

variable {lib : Libraries} {pipe : Pipeline} {e : Engine} {gvr : GroupVersionResource}
variable {st : TargetState} {n : Nat}

theorem jobRow_own (hReg : RegisteredFor e gvr st) {u : Unstructured}
    {job : DispatchJob} (hObj : job.obj = some u)
    (hDecided : verdict lib pipe e gvr u job st ≠ .reviewFailed) (row : Option Item) :
    jobRow lib pipe e gvr st.target.namespace_
        st.target.name u.uid row job = computedRow lib pipe e gvr st job := by
  simp only [jobRow, hObj, statesRow]
  have hLast :=
    Run.exec_last_relevant
      (fun row other =>
        sectionsRow e st.target.namespace_ st.target.name u.uid row
          (processState lib pipe e gvr u job other))
      (sameTarget st)
      (fun row other hOther =>
        sectionsRow_processState_of_ne
          (fun h => of_decide_eq_false hOther ⟨h.1.symm, h.2.1.symm⟩) row)
      row (snapshot e gvr)
  cases hFind : (snapshot e gvr).reverse.find? (sameTarget st) with
  | none =>
    have hNot := List.find?_eq_none.mp hFind st (List.mem_reverse.mpr hReg.mem)
    simp [sameTarget] at hNot
  | some other =>
    have hMem := List.mem_of_find?_eq_some hFind
    have hSame : sameTarget st other = true := List.find?_some hFind
    have hTarget := of_decide_eq_true hSame
    have hEq : other = st := hReg.unique other (List.mem_reverse.mp hMem) hTarget.1 hTarget.2
    rw [hFind] at hLast
    rcases hLast with ⟨row', hRow⟩
    rw [hRow, hEq]
    exact sectionsRow_processState_own hObj hReg.key hDecided row'

end Runs

/-
  What holds between the lock sections of a run without overlap, for one row: at most one worker
  holds an event of the resource, and once it has finished and the queue has been processed, the row
  is the one the history computes.
-/
structure DrainInvariant (lib : Libraries) (pipe : Pipeline) (e : Engine)
    (gvr : GroupVersionResource) (ns name uid : Text) {n : Nat} (s : Dispatcher n) : Prop where
  registry : SameRegistry s.engine e
  pendingOwn :
    ∀ w u job states pending, s.workers w = .running u job states pending →
        u.uid ≠ uid → ∀ eff ∈ pending, ∀ row, Effect.rowAfter e.targets ns name uid row eff = row
  holdOnce : ∀ w w', (s.workers w).holds uid = true → (s.workers w').holds uid = true → w = w'
  held :
    ∀ w, (s.workers w).holds uid = true → Run.exec (jobRow lib pipe e gvr ns name uid)
          ((s.workers w).rowAfter lib pipe e gvr ns name uid
            (s.engine.store.row? ns name uid)) s.queue =
        Run.exec (jobRow lib pipe e gvr ns name uid) (e.store.row? ns name uid) s.history
  free :
    (∀ w, (s.workers w).holds uid = false) → Run.exec (jobRow lib pipe e gvr ns name uid)
          (s.engine.store.row? ns name uid) s.queue =
        Run.exec (jobRow lib pipe e gvr ns name uid) (e.store.row? ns name uid) s.history

section Steps

variable {lib : Libraries} {pipe : Pipeline} {e : Engine} {gvr : GroupVersionResource}
variable {ns name uid : Text} {n : Nat} {s : Dispatcher n}

theorem drainInvariant_start :
    DrainInvariant lib pipe e gvr ns name uid (Dispatcher.start n e) where
  registry := SameRegistry.refl e
  pendingOwn _ _ _ _ _ h := by cases h
  holdOnce _ _ h := by cases h
  held _ h := by cases h
  free _ := rfl

variable (hInv : DrainInvariant lib pipe e gvr ns name uid s)

include hInv in
theorem drainInvariant_enqueue (job : DispatchJob) :
    DrainInvariant lib pipe e gvr ns name uid (s.step lib pipe gvr (.enqueue job)) where
  registry := hInv.registry
  pendingOwn := hInv.pendingOwn
  holdOnce := hInv.holdOnce
  held w hHold := by
    simp only [Dispatcher.step, Run.exec_append]
    rw [hInv.held w hHold]
  free hFree := by
    simp only [Dispatcher.step, Run.exec_append]
    rw [hInv.free hFree]

variable {w : Fin n}

include hInv in
/-
  A worker that goes on with an event of another resource, or begins one, leaves what the others
  still have to do.
-/
theorem drainInvariant_other {s' : Dispatcher n} {worker : Worker}
    (hWorkers : s'.workers = Function.update s.workers w worker)
    (hBefore : (s.workers w).holds uid = false) (hAfter : worker.holds uid = false)
    (hRegistry : SameRegistry s'.engine e) (hPending :
      ∀ u job states pending, worker = .running u job states pending →
          u.uid ≠ uid → ∀ eff ∈ pending, ∀ row, Effect.rowAfter e.targets ns name uid row eff = row)
    (hRow : s'.engine.store.row? ns name uid = s.engine.store.row? ns name uid) (hQueue :
      ∀ row, Run.exec (jobRow lib pipe e gvr ns name uid) row s'.queue =
        Run.exec (jobRow lib pipe e gvr ns name uid) row s.queue)
    (hHistory : s'.history = s.history) : DrainInvariant lib pipe e gvr ns name uid s' := by
  have hHolds : ∀ w', (s'.workers w').holds uid = (s.workers w').holds uid := by
    intro w'
    rw [hWorkers]
    by_cases hW : w' = w
    · subst hW
      rw [Function.update_self, hBefore, hAfter]
    · rw [Function.update_of_ne hW]
  refine ⟨hRegistry, ?_, ?_, ?_, ?_⟩
  · intro w' u job states pending hRunning
    by_cases hW : w' = w
    · subst hW
      rw [hWorkers, Function.update_self] at hRunning
      exact hPending u job states pending hRunning
    · rw [hWorkers, Function.update_of_ne hW] at hRunning
      exact hInv.pendingOwn w' u job states pending hRunning
  · intro w₁ w₂ h₁ h₂
    rw [hHolds] at h₁ h₂
    exact hInv.holdOnce w₁ w₂ h₁ h₂
  · intro w' hHold
    have hW : w' ≠ w := by
      rintro rfl
      rw [hHolds, hBefore] at hHold
      cases hHold
    rw [hQueue, hRow, hHistory, hWorkers, Function.update_of_ne hW]
    rw [hHolds] at hHold
    exact hInv.held w' hHold
  · intro hFree
    rw [hQueue, hRow, hHistory]
    exact hInv.free (fun w' => (hHolds w').symm.trans (hFree w'))

include hInv in
/-
  A worker that goes on with an event of the resource, or begins one nobody else holds, keeps what
  remains to be done.
-/
theorem drainInvariant_own {s' : Dispatcher n} {worker : Worker}
    (hWorkers : s'.workers = Function.update s.workers w worker)
    (hOnly : ∀ w', w' ≠ w → (s.workers w').holds uid = false) (hAfter : worker.holds uid = true)
    (hRegistry : SameRegistry s'.engine e) (hRow : Run.exec (jobRow lib pipe e gvr ns name uid)
          (worker.rowAfter lib pipe e gvr ns name uid (s'.engine.store.row? ns name uid)) s'.queue =
        Run.exec (jobRow lib pipe e gvr ns name uid) (e.store.row? ns name uid) s'.history) :
    DrainInvariant lib pipe e gvr ns name uid s' := by
  have hSelf : s'.workers w = worker := by rw [hWorkers, Function.update_self]
  have hElse : ∀ w', w' ≠ w → s'.workers w' = s.workers w' := by
    intro w' hW
    rw [hWorkers, Function.update_of_ne hW]
  have hHolder : ∀ w', (s'.workers w').holds uid = true → w' = w := by
    intro w' hHold
    by_contra hW
    rw [hElse w' hW, hOnly w' hW] at hHold
    cases hHold
  refine ⟨hRegistry, ?_, ?_, ?_, ?_⟩
  · intro w' u job states pending hRunning hUid
    by_cases hW : w' = w
    · rw [hW, hSelf] at hRunning
      rw [hRunning] at hAfter
      exact absurd (of_decide_eq_true hAfter) hUid
    · rw [hElse w' hW] at hRunning
      exact hInv.pendingOwn w' u job states pending hRunning hUid
  · intro w₁ w₂ h₁ h₂
    rw [hHolder w₁ h₁, hHolder w₂ h₂]
  · intro w' hHold
    rw [hHolder w' hHold, hSelf]
    exact hRow
  · intro hFree
    have hNone := hFree w
    rw [hSelf, hAfter] at hNone
    cases hNone

variable {u : Unstructured} {job : DispatchJob}

include hInv in
/- The only worker on the resource finishes its event. -/
theorem drainInvariant_finish (hWorker : s.workers w = .running u job [] []) (hUid : u.uid = uid) :
    DrainInvariant lib pipe e gvr ns name uid (s.setWorker w .idle) := by
  have hHold : (s.workers w).holds uid = true := by
    rw [hWorker]
    exact decide_eq_true hUid
  have hFree : ∀ w', ((s.setWorker w .idle).workers w').holds uid = false := by
    intro w'
    by_cases hW : w' = w
    · rw [hW, Dispatcher.setWorker_self]
      rfl
    · rw [Dispatcher.setWorker_of_ne s hW, Bool.eq_false_iff]
      intro hHold'
      exact hW (hInv.holdOnce w' w hHold' hHold)
  refine ⟨hInv.registry, ?_, ?_, ?_, ?_⟩
  · intro w' u' job' states pending hRunning
    by_cases hW : w' = w
    · rw [hW, Dispatcher.setWorker_self] at hRunning
      cases hRunning
    · rw [Dispatcher.setWorker_of_ne s hW] at hRunning
      exact hInv.pendingOwn w' u' job' states pending hRunning
  · intro w₁ _ h₁
    rw [hFree w₁] at h₁
    cases h₁
  · intro w' h
    rw [hFree w'] at h
    cases h
  · intro _
    have hRow := hInv.held w hHold
    rw [hWorker] at hRow
    exact hRow

include hInv in
/- An idle worker takes the head of the queue. -/
theorem drainInvariant_take (hWorker : s.workers w = .idle) (hNo : NoOverlap s (.work w))
    {rest : List DispatchJob} (hQueue : s.queue = job :: rest) (hObj : job.obj = some u) :
    DrainInvariant lib pipe e gvr ns name uid
      ({ s with queue := rest }.setWorker w (.running u job (snapshot s.engine gvr) [])) := by
  have hIdle : (s.workers w).holds uid = false := by
    rw [hWorker]
    rfl
  by_cases hUid : u.uid = uid
  · have hNone : ∀ w', (s.workers w').holds uid = false := by
      apply hNo (by rw [hWorker]; rfl) uid
      simp [hQueue, DispatchJob.uid, hObj, hUid]
    refine drainInvariant_own hInv rfl (fun w' _ => hNone w') (decide_eq_true hUid) hInv.registry ?_
    have hRow := hInv.free hNone
    rw [hQueue, Run.exec_cons] at hRow
    simp only [jobRow, hObj] at hRow
    rw [snapshot_congr hInv.registry]
    exact hRow
  · refine drainInvariant_other hInv rfl hIdle (decide_eq_false hUid) hInv.registry ?_ rfl ?_ rfl
    · rintro _ _ _ _ ⟨⟩ _ eff hMem
      cases hMem
    · intro row
      rw [hQueue, Run.exec_cons, jobRow_of_uid_ne]
      · rfl
      · simpa [DispatchJob.uid, hObj] using hUid

variable {states : List TargetState}

include hInv in
/- A worker runs the next section of its current target. -/
theorem drainInvariant_section {eff : Effect} {pending : List Effect}
    (hWorker : s.workers w = .running u job states (eff :: pending)) :
    DrainInvariant lib pipe e gvr ns name uid
      ({ s with engine := eff.apply s.engine }.setWorker w (.running u job states pending)) := by
  have hRegistry := sameRegistry_apply hInv.registry eff
  have hRow : (eff.apply s.engine).store.row? ns name uid =
        Effect.rowAfter e.targets ns name uid (s.engine.store.row? ns name uid) eff := by
    rw [row?_apply, hInv.registry.targets]
  by_cases hUid : u.uid = uid
  · have hHold : (s.workers w).holds uid = true := by
      rw [hWorker]
      exact decide_eq_true hUid
    refine drainInvariant_own hInv rfl ?_ (decide_eq_true hUid) hRegistry ?_
    · intro w' hW
      rw [Bool.eq_false_iff]
      intro hHold'
      exact hW (hInv.holdOnce w' w hHold' hHold)
    · have hHeld := hInv.held w hHold
      rw [hWorker] at hHeld
      simp only [Dispatcher.setWorker, hRow]
      exact hHeld
  · have hOwn := hInv.pendingOwn w u job states _ hWorker hUid
    refine drainInvariant_other hInv rfl ?_
      (decide_eq_false hUid) hRegistry ?_ ?_ (fun _ => rfl) rfl
    · rw [hWorker]
      exact decide_eq_false hUid
    · rintro _ _ _ _ ⟨⟩ _ eff' hMem
      exact hOwn eff' (List.mem_cons_of_mem _ hMem)
    · exact hRow.trans (hOwn eff List.mem_cons_self _)

include hInv in
/- A worker turns to the next target of its event. -/
theorem drainInvariant_next {st : TargetState}
    (hWorker : s.workers w = .running u job (st :: states) []) :
    DrainInvariant lib pipe e gvr ns name uid
      (s.setWorker w (.running u job states (processState lib pipe s.engine gvr u job st))) := by
  rw [processState_congr hInv.registry.nsMeta]
  by_cases hUid : u.uid = uid
  · have hHold : (s.workers w).holds uid = true := by
      rw [hWorker]
      exact decide_eq_true hUid
    refine drainInvariant_own hInv rfl ?_ (decide_eq_true hUid) hInv.registry ?_
    · intro w' hW
      rw [Bool.eq_false_iff]
      intro hHold'
      exact hW (hInv.holdOnce w' w hHold' hHold)
    · have hHeld := hInv.held w hHold
      rw [hWorker] at hHeld
      exact hHeld
  · refine drainInvariant_other hInv rfl ?_ (decide_eq_false hUid) hInv.registry ?_ rfl
      (fun _ => rfl) rfl
    · rw [hWorker]
      exact decide_eq_false hUid
    · rintro _ _ _ _ ⟨⟩ _ eff hMem row
      exact rowAfter_processState_of_ne (fun h => hUid h.2.2.symm) hMem row

/- Every step of a run without overlap keeps the invariant. -/
theorem drainInvariant_step (s : Dispatcher n) (label : DispatchLabel n)
    (hInv : DrainInvariant lib pipe e gvr ns name uid s) (hNo : NoOverlap s label) :
    DrainInvariant lib pipe e gvr ns name uid (s.step lib pipe gvr label) := by
  cases label with
  | enqueue job => exact drainInvariant_enqueue hInv job
  | work w =>
    cases hWorker : s.workers w with
    | idle =>
      cases hQueue : s.queue with
      | nil =>
        simp only [Dispatcher.step, hWorker, hQueue]
        exact hInv
      | cons job rest =>
        cases hObj : job.obj with
        | some u =>
          simp only [Dispatcher.step, hWorker, hQueue, hObj]
          exact drainInvariant_take hInv hWorker hNo hQueue hObj
        | none =>
          simp only [Dispatcher.step, hWorker, hQueue, hObj]
          have hSelf : s.workers = Function.update s.workers w .idle := by
            rw [← hWorker, Function.update_eq_self]
          refine drainInvariant_other hInv hSelf (by rw [hWorker]; rfl) rfl hInv.registry
            ?_ rfl ?_ rfl
          · rintro _ _ _ _ ⟨⟩
          · intro row
            simp only [hQueue, Run.exec_cons, jobRow, hObj]
    | running u job states pending =>
      cases pending with
      | cons eff pending =>
        simp only [Dispatcher.step, hWorker]
        exact drainInvariant_section hInv hWorker
      | nil =>
        cases states with
        | cons st states =>
          simp only [Dispatcher.step, hWorker]
          exact drainInvariant_next hInv hWorker
        | nil =>
          simp only [Dispatcher.step, hWorker]
          by_cases hUid : u.uid = uid
          · exact drainInvariant_finish hInv hWorker hUid
          · refine drainInvariant_other hInv rfl ?_ rfl hInv.registry ?_ rfl (fun _ => rfl) rfl
            · rw [hWorker]
              exact decide_eq_false hUid
            · rintro _ _ _ _ ⟨⟩

end Steps

/-
  Once the queue of a run without overlap has drained, the row of every resource is the one its last
  event computes, unless the access review of that event failed; a resource without events keeps its
  row.
-/
theorem quiescent_row_of_noOverlap {lib : Libraries} {pipe : Pipeline} {e : Engine}
    {gvr : GroupVersionResource} {st : TargetState} {n : Nat}
    {labels : List (DispatchLabel n)} (hReg : RegisteredFor e gvr st)
    (hRun : Run.Along (Dispatcher.step lib pipe gvr) NoOverlap (Dispatcher.start n e) labels)
    {s : Dispatcher n}
    (hEnd : Run.exec (Dispatcher.step lib pipe gvr) (Dispatcher.start n e) labels = s)
    (hQuiet : s.quiescent = true) (uid : Text) :
    match lastEvent s.history uid with
    | none =>
      s.engine.store.row? st.target.namespace_ st.target.name uid =
        e.store.row? st.target.namespace_ st.target.name uid
    | some job =>
      job.access (keyOf st.target) ≠ .failed → s.engine.store.row? st.target.namespace_
            st.target.name uid = computedRow lib pipe e gvr st job := by
  have hInv : DrainInvariant lib pipe e gvr st.target.namespace_ st.target.name uid s := by
    rw [← hEnd]
    exact Run.exec_invariant drainInvariant_step drainInvariant_start hRun
  simp only [Dispatcher.quiescent, Bool.and_eq_true, List.isEmpty_iff, decide_eq_true_eq] at hQuiet
  have hFree : ∀ w, (s.workers w).holds uid = false := by
    intro w
    have hIdle := hQuiet.2 w
    cases hWorker : s.workers w with
    | idle => rfl
    | running u job states pending =>
      rw [hWorker] at hIdle
      cases hIdle
  have hRow := hInv.free hFree
  rw [hQuiet.1, Run.exec_nil] at hRow
  have hLast := Run.exec_last_relevant
      (jobRow lib pipe e gvr st.target.namespace_ st.target.name uid)
      (fun job => job.uid = some uid)
      (fun row job hJob => jobRow_of_uid_ne (of_decide_eq_false hJob) row)
      (e.store.row? st.target.namespace_ st.target.name uid) s.history
  unfold lastEvent
  cases hFind : s.history.reverse.find? (fun job => job.uid = some uid) with
  | none =>
    rw [hFind] at hLast
    exact hRow.trans hLast
  | some job =>
    rw [hFind] at hLast
    rcases hLast with ⟨row, hJob⟩
    intro hAccess
    have hUid : job.uid = some uid := by simpa using List.find?_some hFind
    rcases Option.map_eq_some_iff.mp hUid with ⟨u, hObj, hU⟩
    rw [hRow, hJob, ← hU]
    exact jobRow_own hReg hObj (verdict_ne_reviewFailed hAccess) row

----
-- Two Workers On One Object
----

/- Extraction that finds no attributes. -/
def Pipeline.plain : Pipeline where
  extract _ _ := .ok ∅
  scrubAndEmbed _ _ attrs := attrs

/- An engine with one target on deployments of `team-a`. -/
def deploymentsEngine : Engine :=
  (registerTarget Libraries.plain (Engine.fresh twoNamespaces) (targetIncluding [("team-a" : Text)])
    deploymentProfile noOptions none).engine

def deploymentsGVR : GroupVersionResource :=
  gvrFromProfile Libraries.plain deploymentProfile.spec.targetGVK

def deploymentsState : TargetState :=
  newTargetState (targetIncluding [("team-a" : Text)])
    deploymentProfile noOptions [] [("team-a" : Text)]

def teamEvent (deleted : Bool) : DispatchJob where
  obj := some (objectIn "team-a")
  deleted := deleted
  access _ := .allowed

/-
  The first worker decides on the update and stops before it writes; the second one processes the
  deletion meanwhile.
-/
def overtakingRun : List (DispatchLabel 2) :=
  [.enqueue (teamEvent false), .enqueue (teamEvent true), .work 0, .work 0,
    .work 1, .work 1, .work 1, .work 1, .work 1, .work 0, .work 0, .work 0, .work 0, .work 0]

/- The deleted object's row stays in the drained store. -/
theorem overtaken_update_outlives_deletion :
    let s := Run.exec (Dispatcher.step Libraries.plain Pipeline.plain deploymentsGVR)
        (Dispatcher.start 2 deploymentsEngine) overtakingRun
    s.quiescent = true ∧ (lastEvent s.history "uid-1").map DispatchJob.deleted = some true ∧
      (s.engine.store.row? "team-a" "deployments" "uid-1").isSome = true := by
  decide

/- One worker after the other processes the two events. -/
def orderlyRun : List (DispatchLabel 2) :=
  [.enqueue (teamEvent false), .enqueue (teamEvent true),
    .work 0, .work 0, .work 0, .work 0, .work 0, .work 0,
    .work 0, .work 1, .work 1, .work 1, .work 1, .work 1]

theorem orderly_run_removes_deleted_row :
    RegisteredFor deploymentsEngine deploymentsGVR deploymentsState ∧ Run.Along
        (Dispatcher.step Libraries.plain Pipeline.plain deploymentsGVR) NoOverlap
        (Dispatcher.start 2 deploymentsEngine) orderlyRun ∧
      (Run.exec (Dispatcher.step Libraries.plain Pipeline.plain deploymentsGVR)
        (Dispatcher.start 2 deploymentsEngine)
        orderlyRun).engine.store.row? "team-a" "deployments" "uid-1" = none := by
  have hSnapshot : snapshot deploymentsEngine deploymentsGVR = [deploymentsState] := rfl
  have hReg : RegisteredFor deploymentsEngine deploymentsGVR deploymentsState := by
    refine ⟨rfl, ?_, ?_⟩
    · rw [hSnapshot]
      exact List.mem_singleton_self _
    · intro other hOther _ _
      rw [hSnapshot] at hOther
      exact List.mem_singleton.mp hOther
  have hRun : Run.Along (Dispatcher.step Libraries.plain Pipeline.plain deploymentsGVR) NoOverlap
        (Dispatcher.start 2 deploymentsEngine) orderlyRun := by
    decide
  have hRow := quiescent_row_of_noOverlap hReg hRun rfl (by decide) ("uid-1" : Text)
  exact ⟨hReg, hRun, hRow (by decide)⟩

end Collect

end Kollect
