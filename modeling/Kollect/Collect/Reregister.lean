import Kollect.Collect.Dispatch
import Kollect.Collect.Registry

/-
  Repeated registrations of one target, with the informers that feed it: which objects a
  `RegisterTarget` call dispatches again, and which rows of the target it leaves (`RegisterTarget`,
  `startInformer` and `processDispatch` of `internal/collect/engine.go`, `namespace_scope.go`).

  The events are processed one at a time and drained after each call. An informer's cache holds the
  objects of its resource in its scope.

  Key theorems include:
    * `rowsFit_register_iff`
    * `rowsFit_run_iff`
-/

namespace Kollect
namespace Collect

----
-- One Event At A Time
----

/- `processDispatch` with nothing else going on. -/
def processDispatch (lib : Libraries) (pipe : Pipeline)
    (gvr : GroupVersionResource) (e : Engine) (job : DispatchJob) : Engine :=
  match job.obj with
  | none => e
  | some u =>
    (snapshot e gvr).foldl (fun e st => (processState lib pipe e gvr u job st).foldl Effect.apply e)
      e

section Events

variable (lib : Libraries) (pipe : Pipeline) (gvr : GroupVersionResource) (ns name uid : Text)

variable {e' : Engine}

theorem row?_sections {e : Engine} (hSame : SameRegistry e' e) (effects : List Effect) :
    SameRegistry (effects.foldl Effect.apply e') e ∧
      (effects.foldl Effect.apply e').store.row? ns name uid =
        sectionsRow e ns name uid (e'.store.row? ns name uid) effects := by
  induction effects generalizing e' with
  | nil => exact ⟨hSame, rfl⟩
  | cons eff effects ih =>
    rcases ih (sameRegistry_apply hSame eff) with ⟨hAfter, hRow⟩
    refine ⟨hAfter, hRow.trans ?_⟩
    rw [row?_apply, hSame.targets]
    rfl

theorem row?_states {e : Engine} (hSame : SameRegistry e' e) (u : Unstructured) (job : DispatchJob)
    (states : List TargetState) :
    let after := states.foldl
        (fun e st => (processState lib pipe e gvr u job st).foldl Effect.apply e) e'
    SameRegistry after e ∧ after.store.row? ns name uid =
        statesRow lib pipe e gvr ns name uid u job (e'.store.row? ns name uid) states := by
  induction states generalizing e' with
  | nil => exact ⟨hSame, rfl⟩
  | cons st states ih =>
    rcases row?_sections ns name uid hSame
      (processState lib pipe e' gvr u job st) with
      ⟨hAfter, hRow⟩
    rcases ih hAfter with ⟨hEnd, hRows⟩
    refine ⟨hEnd, hRows.trans ?_⟩
    rw [hRow, processState_congr hSame.nsMeta]
    rfl

theorem row?_processDispatch {e : Engine} (hSame : SameRegistry e' e) (job : DispatchJob) :
    SameRegistry (processDispatch lib pipe gvr e' job) e ∧
      (processDispatch lib pipe gvr e' job).store.row? ns name uid =
        jobRow lib pipe e gvr ns name uid (e'.store.row? ns name uid) job := by
  unfold processDispatch jobRow
  cases job.obj with
  | none => exact ⟨hSame, rfl⟩
  | some u =>
    rw [snapshot_congr hSame]
    exact row?_states lib pipe gvr ns name uid hSame u job _

theorem row?_events {e : Engine} (hSame : SameRegistry e' e) (jobs : List DispatchJob) :
    SameRegistry (jobs.foldl (processDispatch lib pipe gvr) e') e ∧
      (jobs.foldl (processDispatch lib pipe gvr) e').store.row? ns name uid =
        Run.exec (jobRow lib pipe e gvr ns name uid) (e'.store.row? ns name uid) jobs := by
  induction jobs generalizing e' with
  | nil => exact ⟨hSame, rfl⟩
  | cons job jobs ih =>
    rcases row?_processDispatch lib pipe gvr ns name uid hSame job with ⟨hAfter, hRow⟩
    rcases ih hAfter with ⟨hEnd, hRows⟩
    exact ⟨hEnd, hRows.trans (by rw [hRow]; rfl)⟩

end Events

----
-- Calls On One Target
----

/- The engine with its informers, and the objects of the cluster by resource. -/
structure Collector where
  engine : Engine
  informerScopes : GoMap GroupVersionResource Text
  cluster : GroupVersionResource → List Unstructured

/- What changes between two `RegisterTarget` calls. -/
structure Revision where
  generation : Int
  spec : KollectTargetSpec
  profile : KollectProfile
  opts : RegisterTargetOptions
  listed : Option (GoMap Text NamespaceMeta)

def Revision.call (ns name : Text) (r : Revision) : RegisterCall :=
  ⟨⟨ns, name, r.generation, r.spec⟩, r.profile, r.opts, r.listed⟩

/-
  A call, with whether a new informer's cache syncs and what the access reviews of its events
  answer; or an object that appears, changes or goes.
-/
inductive CollectorLabel where
  | register (r : Revision) (syncs : Bool) (access : Nat → Text → AccessResult)
  | change (gvr : GroupVersionResource) (u : Unstructured) (deleted : Bool)
      (access : Text → AccessResult)

/- The informer of the scope watches the object. -/
def inScope (scope : Text) (u : Unstructured) : Bool :=
  scope == namespaceAll || u.namespace_ == scope

namespace Collector

def cache (s : Collector) (gvr : GroupVersionResource) (scope : Text) : List Unstructured :=
  (s.cluster gvr).filter (inScope scope)

/- The running informer already covers the scope. -/
def covers (s : Collector) (gvr : GroupVersionResource) (desired : Text) : Option Text :=
  (s.informerScopes.lookup gvr).filter
    (fun current => current == namespaceAll || current == desired)

variable (lib : Libraries)

/-
  The objects `startInformer` dispatches: the cache of the running informer on a backfill; the
  initial list of a new one, and all of it again when it replaces another.
-/
def dispatched (s : Collector) (e : Engine) (gvr : GroupVersionResource)
    (backfill syncs : Bool) : List Unstructured :=
  let desired := watchNamespaceForGVR lib e gvr
  match s.covers gvr desired with
  | some current => if backfill then s.cache gvr current else []
  | none =>
    if syncs then
      match s.informerScopes.lookup gvr with
      | none => s.cache gvr desired
      | some _ => s.cache gvr desired ++ s.cache gvr desired
    else []

/- The scopes after `startInformer`. -/
def scopesAfter (s : Collector) (e : Engine) (gvr : GroupVersionResource)
    (syncs : Bool) : GoMap GroupVersionResource Text :=
  let desired := watchNamespaceForGVR lib e gvr
  match s.covers gvr desired with
  | some _ => s.informerScopes
  | none =>
    if syncs then s.informerScopes.insert gvr desired
    else s.informerScopes

def eventsOf (access : Nat → Text → AccessResult)
    (objects : List Unstructured) : List DispatchJob :=
  objects.mapIdx (fun i u => ⟨some u, false, access i⟩)

def register (pipe : Pipeline) (s : Collector)
    (call : RegisterCall) (syncs : Bool) (access : Nat → Text → AccessResult) : Collector :=
  match call.outcome lib s.engine with
  | .suspended e => { s with engine := e }
  | .invalidRules e _ => { s with engine := e }
  | .registered e gvr backfill =>
    { s with
      engine := (eventsOf access
          (s.dispatched lib e gvr backfill syncs)).foldl (processDispatch lib pipe gvr) e
      informerScopes := s.scopesAfter lib e gvr syncs }

/- The event of an object reaches the informer that has it. -/
def change (pipe : Pipeline) (s : Collector)
    (gvr : GroupVersionResource) (u : Unstructured) (deleted : Bool)
    (access : Text → AccessResult) : Collector :=
  let others := (s.cluster gvr).filter (fun v => v.uid ≠ u.uid)
  let objects := if deleted then others else others ++ [u]
  let s := { s with cluster := Function.update s.cluster gvr objects }
  match s.informerScopes.lookup gvr with
  | none => s
  | some scope =>
    if inScope scope u then
      { s with engine := processDispatch lib pipe gvr s.engine ⟨some u, deleted, access⟩ }
    else s

def step (pipe : Pipeline) (ns name : Text) (s : Collector) : CollectorLabel → Collector
  | .register r syncs access => s.register lib pipe (r.call ns name) syncs access
  | .change gvr u deleted access => s.change lib pipe gvr u deleted access

end Collector

----
-- Rows That Fit The Registration
----

/- The namespace a row's object is matched by. -/
def Item.resourceNamespace (item : Item) : Text :=
  if item.namespace_ = [] then namespaceDefault
  else item.namespace_

/-
  The row has the kind of the state's profile, and its namespace satisfies the state's namespace
  set.
-/
structure Fits (lib : Libraries) (e : Engine) (st : TargetState) (item : Item) : Prop where
  group : item.group = st.profile.spec.targetGVK.group
  version : item.version = st.profile.spec.targetGVK.version
  kind : item.kind = st.profile.spec.targetGVK.kind
  namespace_ :
    namespaceMatches lib e st.target st.effectiveNamespaces
      st.scopeEnforced item.resourceNamespace = true

/- The row fits what is registered for the target. -/
def RowFits (lib : Libraries) (e : Engine) (ns name : Text) (item : Item) : Prop :=
  ∃ st, e.targets.lookup (targetKey ns name) = some st ∧ Fits lib e st item

/- Every row of the target fits what is registered. -/
def RowsFit (lib : Libraries) (ns name : Text) (s : Collector) : Prop :=
  ∀ uid item, s.engine.store.row? ns name uid = some item → RowFits lib s.engine ns name item

----
-- What Events Do To The Rows
----

section Rows

variable {lib : Libraries} {pipe : Pipeline} {e : Engine} {gvr : GroupVersionResource}
variable {ns name uid : Text} {u : Unstructured} {job : DispatchJob} {st : TargetState}

/- The row is gone, or it fits. -/
def FitsOrGone (lib : Libraries) (e : Engine) (ns name : Text) (row : Option Item) : Prop :=
  ∀ item, row = some item → RowFits lib e ns name item

theorem fits_of_collected {item : Item}
    (hVerdict : verdict lib pipe e gvr u job st = .collected item) : Fits lib e st item := by
  rcases verdict_eq_collected hVerdict with ⟨hAccepted, attrs, -, hItem⟩
  rw [hItem]
  unfold matchesTarget at hAccepted
  split_ifs at hAccepted with hNs
  have hMatches : namespaceMatches lib e st.target st.effectiveNamespaces
        st.scopeEnforced (resourceNamespace u) = true := by
    simpa using hNs
  exact ⟨rfl, rfl, rfl, hMatches⟩

theorem rowAfter_processState (hKey : e.targets.lookup (keyOf st.target) = some st) {eff : Effect}
    (hMem : eff ∈ processState lib pipe e gvr u job st) (row : Option Item) :
    eff.rowAfter e.targets ns name uid row = row ∨
      FitsOrGone lib e ns name (eff.rowAfter e.targets ns name uid row) := by
  cases eff with
  | storeRemove ns' name' uid' =>
    simp only [Effect.rowAfter]
    split_ifs
    · right
      intro item hItem
      cases hItem
    · exact Or.inl rfl
  | upsertIfRegistered key item =>
    simp only [Effect.rowAfter]
    split_ifs with hWritten
    · right
      intro item' hItem
      cases hItem
      rcases hWritten with ⟨-, hNs, hName, -⟩
      have hVerdict := (upsert_mem_processState hMem).2
      rcases verdict_collected hVerdict with ⟨hNs', hName', -⟩
      refine ⟨st, ?_, fits_of_collected hVerdict⟩
      rw [hNs, hName, hNs', hName']
      exact hKey
    · exact Or.inl rfl
  | setAccessErr key => exact Or.inl rfl
  | clearAccessErr key => exact Or.inl rfl
  | setForbidden key => exact Or.inl rfl
  | clearForbidden key => exact Or.inl rfl
  | recordExtractFailure key uid' errMsg => exact Or.inl rfl
  | clearExtractFailure key uid' => exact Or.inl rfl

theorem jobRow_self_or (hKeyed : Keyed e) (row : Option Item) (job : DispatchJob) :
    jobRow lib pipe e gvr ns name uid row job = row ∨
      FitsOrGone lib e ns name (jobRow lib pipe e gvr ns name uid row job) := by
  unfold jobRow
  cases job.obj with
  | none => exact Or.inl rfl
  | some u =>
    apply Run.exec_self_or
    intro st hSt row
    apply Run.exec_self_or
    intro eff hEff row
    rcases List.mem_filterMap.mp hSt with ⟨key, -, hLookup⟩
    have hKey := hKeyed key st hLookup
    exact rowAfter_processState (hKey ▸ hLookup) hEff row

theorem exec_jobRow_self_or (hKeyed : Keyed e) (row : Option Item) (jobs : List DispatchJob) :
    Run.exec (jobRow lib pipe e gvr ns name uid) row jobs = row ∨
      FitsOrGone lib e ns name (Run.exec (jobRow lib pipe e gvr ns name uid) row jobs) := by
  apply Run.exec_self_or
  intro job _ row
  exact jobRow_self_or hKeyed row job

theorem jobRow_reviewFailed (hReg : RegisteredFor e gvr st) (hObj : job.obj = some u)
    (hFailed : verdict lib pipe e gvr u job st = .reviewFailed) (row : Option Item) :
    jobRow lib pipe e gvr st.target.namespace_ st.target.name uid row job = row := by
  simp only [jobRow, hObj, statesRow]
  apply Run.exec_eq_self
  intro other hOther row
  by_cases hSame :
      other.target.namespace_ = st.target.namespace_ ∧ other.target.name = st.target.name
  · rw [hReg.unique other hOther hSame.1 hSame.2]
    simp [processState, hFailed, sections, sectionsRow, Effect.rowAfter]
  · apply sectionsRow_processState_of_ne
    intro hRow
    exact hSame ⟨hRow.1.symm, hRow.2.1.symm⟩

/- When a review leaves an event without a decision. -/
theorem verdict_eq_reviewFailed_iff (hUpdate : job.deleted = false) :
    verdict lib pipe e gvr u job st = .reviewFailed ↔
      matchesTarget lib e st gvr u = .accepted ∧ job.access (keyOf st.target) = .failed := by
  unfold verdict
  rw [hUpdate]
  by_cases hMatch : matchesTarget lib e st gvr u = .accepted
  · cases hAccess : job.access (keyOf st.target) with
    | failed => simp [hMatch]
    | denied => simp [hMatch]
    | allowed =>
      simp only [hMatch, Bool.false_eq_true, if_false,
        ne_eq, not_true_eq_false, reduceCtorEq, and_false, iff_false]
      split <;> exact fun hNo => by cases hNo
  · simp [hMatch]

end Rows

----
-- Which Rows A Call Leaves
----

/- The event of the object decides on the target's row. -/
def Decided (lib : Libraries) (e : Engine) (ns name : Text)
    (gvr : GroupVersionResource) (access : Text → AccessResult) (u : Unstructured) : Prop :=
  ∀ st, e.targets.lookup (targetKey ns name) = some st →
    ¬ (matchesTarget lib e st gvr u = .accepted ∧ access (targetKey ns name) = .failed)

/-
  Every row of the target that does not fit the state the call registers is the row of an object
  that the call dispatches again, with a decision.
-/
def StaleRowsReached (lib : Libraries) (ns name : Text) (s : Collector) : CollectorLabel → Prop
  | .register r syncs access =>
    match (r.call ns name).outcome lib s.engine with
    | .suspended _ => True
    | .invalidRules _ _ => True
    | .registered e gvr backfill =>
      ∀ uid item, s.engine.store.row? ns name uid = some item → RowFits lib e ns name item ∨ ∃ i u,
              (s.dispatched lib e gvr backfill syncs)[i]? = some u ∧ u.uid = uid ∧
                Decided lib e ns name gvr (access i) u
  | .change _ _ _ _ => True

section Calls

variable {lib : Libraries} {pipe : Pipeline} {ns name : Text} {gvr : GroupVersionResource}

theorem rowFits_congr {e e' : Engine} (hSame : SameRegistry e' e) (item : Item) :
    RowFits lib e' ns name item ↔ RowFits lib e ns name item := by
  have hMatches : ∀ target effective enforced resourceNs,
      namespaceMatches lib e' target effective enforced resourceNs =
        namespaceMatches lib e target effective enforced resourceNs := by
    intro target effective enforced resourceNs
    unfold namespaceMatches
    rw [hSame.nsMeta]
  constructor
  · intro hFits
    rcases hFits with ⟨st, hLookup, hFit⟩
    refine ⟨st, hSame.targets ▸ hLookup, hFit.group, hFit.version, hFit.kind, ?_⟩
    rw [← hMatches]
    exact hFit.namespace_
  · intro hFits
    rcases hFits with ⟨st, hLookup, hFit⟩
    refine ⟨st, hSame.targets ▸ hLookup, hFit.group, hFit.version, hFit.kind, ?_⟩
    rw [hMatches]
    exact hFit.namespace_

theorem registeredFor_of_keyed {e : Engine} (hKeyed : Keyed e) {st : TargetState}
    (hLookup : e.targets.lookup (keyOf st.target) = some st)
    (hIndexed : keyOf st.target ∈ e.keysFor gvr) : RegisteredFor e gvr st := by
  refine ⟨hLookup, ?_, ?_⟩
  · exact List.mem_filterMap.mpr ⟨_, hIndexed, hLookup⟩
  · intro other hOther hNs hName
    rcases List.mem_filterMap.mp hOther with ⟨key, -, hKey⟩
    have hSame : key = keyOf st.target := by rw [hKeyed key other hKey, keyOf, keyOf, hNs, hName]
    rw [hSame] at hKey
    exact Option.some.inj (hKey.symm.trans hLookup)

variable {e : Engine} {st : TargetState} {uid : Text}

/- A decided event leaves no row that does not fit. -/
theorem fitsOrGone_of_decided (hReg : RegisteredFor e gvr st) {u : Unstructured}
    {job : DispatchJob} (hObj : job.obj = some u)
    (hDecided : verdict lib pipe e gvr u job st ≠ .reviewFailed) (row : Option Item) :
    FitsOrGone lib e st.target.namespace_ st.target.name
      (jobRow lib pipe e gvr st.target.namespace_ st.target.name u.uid row job) := by
  rw [jobRow_own hReg hObj hDecided]
  intro item hItem
  unfold computedRow at hItem
  rw [hObj, Option.bind_some] at hItem
  cases hVerdict : verdict lib pipe e gvr u job st with
  | collected item' =>
    rw [hVerdict] at hItem
    cases hItem
    exact ⟨st, hReg.key, fits_of_collected hVerdict⟩
  | dropped | reviewFailed | denied | unreadable => rw [hVerdict] at hItem; cases hItem

variable {jobs : List DispatchJob}

/- After a decided event, later ones leave none either. -/
theorem fitsOrGone_exec (hKeyed : Keyed e) (hReg : RegisteredFor e gvr st) {u : Unstructured}
    {job : DispatchJob} (hObj : job.obj = some u) (hUid : u.uid = uid)
    (hDecided : verdict lib pipe e gvr u job st ≠ .reviewFailed) (hMem : job ∈ jobs)
    (row : Option Item) : FitsOrGone lib e st.target.namespace_ st.target.name
      (Run.exec (jobRow lib pipe e gvr st.target.namespace_ st.target.name uid) row jobs) := by
  rcases List.append_of_mem hMem with ⟨before, after, hJobs⟩
  rw [hJobs, Run.exec_append, Run.exec_cons]
  have hFits := fitsOrGone_of_decided hReg hObj hDecided
      (Run.exec (jobRow lib pipe e gvr st.target.namespace_ st.target.name uid) row before)
  rw [hUid] at hFits
  rcases exec_jobRow_self_or hKeyed _ after with hSame | hGood
  · rw [hSame]
    exact hFits
  · exact hGood

/- Without a decided event of the resource the row stays. -/
theorem exec_undecided (hReg : RegisteredFor e gvr st) (hNone :
      ∀ job ∈ jobs, ∀ u, job.obj = some u → u.uid = uid →
        verdict lib pipe e gvr u job st = .reviewFailed) (row : Option Item) :
    Run.exec (jobRow lib pipe e gvr st.target.namespace_ st.target.name uid) row jobs = row := by
  apply Run.exec_eq_self
  intro job hJob row
  by_cases hUid : job.uid = some uid
  · rcases Option.map_eq_some_iff.mp hUid with ⟨u, hObj, hU⟩
    exact jobRow_reviewFailed hReg hObj (hNone job hJob u hObj hU) row
  · exact jobRow_of_uid_ne hUid row

theorem mem_eventsOf {access : Nat → Text → AccessResult}
    {objects : List Unstructured} {job : DispatchJob} : job ∈ Collector.eventsOf access objects ↔
      ∃ i u, objects[i]? = some u ∧ job = ⟨some u, false, access i⟩ := by
  unfold Collector.eventsOf
  rw [List.mem_iff_getElem?]
  constructor
  · intro hMem
    rcases hMem with ⟨i, hJob⟩
    rw [List.getElem?_mapIdx] at hJob
    rcases Option.map_eq_some_iff.mp hJob with ⟨u, hU, hEq⟩
    exact ⟨i, u, hU, hEq.symm⟩
  · intro hMem
    rcases hMem with ⟨i, u, hU, hEq⟩
    refine ⟨i, ?_⟩
    rw [List.getElem?_mapIdx, hU, hEq]
    rfl

variable (lib) (pipe) in
/-
  After the events of a registration the target's rows fit exactly when each row that did not has a
  decided event.
-/
theorem rowsFit_events_iff (hKeyed : Keyed e) (hReg : RegisteredFor e gvr st)
    (access : Nat → Text → AccessResult) (objects : List Unstructured) :
    (∀ uid item, ((Collector.eventsOf access objects).foldl
          (processDispatch lib pipe gvr) e).store.row? st.target.namespace_ st.target.name uid =
          some item → RowFits lib e st.target.namespace_ st.target.name item) ↔
      ∀ uid item, e.store.row? st.target.namespace_ st.target.name uid = some item →
        RowFits lib e st.target.namespace_ st.target.name item ∨
          ∃ i u, objects[i]? = some u ∧ u.uid = uid ∧
            Decided lib e st.target.namespace_ st.target.name gvr (access i) u := by
  have hRow := fun uid =>
    (row?_events lib pipe gvr st.target.namespace_ st.target.name uid (SameRegistry.refl e)
      (Collector.eventsOf access objects)).2
  have hUndecided : ∀ i u,
      ¬ Decided lib e st.target.namespace_ st.target.name gvr (access i) u ↔
        verdict lib pipe e gvr u ⟨some u, false, access i⟩ st = .reviewFailed := by
    intro i u
    rw [verdict_eq_reviewFailed_iff rfl]
    unfold Decided
    rw [show targetKey st.target.namespace_ st.target.name = keyOf st.target from rfl, hReg.key]
    simp
  constructor
  · intro hAfter uid item hBefore
    by_contra hNot
    rw [not_or, not_exists] at hNot
    apply hNot.1
    apply hAfter uid item
    rw [hRow uid, ← hBefore]
    apply exec_undecided hReg
    intro job hJob u hObj hUid
    rcases mem_eventsOf.mp hJob with ⟨i, u', hU, hEq⟩
    subst hEq
    cases hObj
    apply (hUndecided i u).mp
    intro hDecided
    exact hNot.2 i ⟨u, hU, hUid, hDecided⟩
  · intro hReached uid item hAfter
    rw [hRow uid] at hAfter
    rcases exec_jobRow_self_or hKeyed _ _ with hSame | hGood
    · rw [hSame] at hAfter
      rcases hReached uid item hAfter with hFit | ⟨i, u, hU, hUid, hDecided⟩
      · exact hFit
      · have hVerdict : verdict lib pipe e gvr u ⟨some u, false, access i⟩ st ≠ .reviewFailed := by
          intro hFailed
          exact (hUndecided i u).mpr hFailed hDecided
        refine fitsOrGone_exec hKeyed hReg rfl hUid hVerdict
          (mem_eventsOf.mpr ⟨i, u, hU, rfl⟩) _ item (hSame.trans hAfter)
    · exact hGood item hAfter

end Calls

section Steps

variable {lib : Libraries} {pipe : Pipeline} {ns name : Text} {s : Collector}

theorem keyed_of_sameRegistry {e e' : Engine} (hKeyed : Keyed e) (hSame : SameRegistry e' e) :
    Keyed e' := by
  unfold Keyed
  rw [hSame.targets]
  exact hKeyed

theorem keyed_register (hKeyed : Keyed s.engine) (call : RegisterCall)
    (syncs : Bool) (access : Nat → Text → AccessResult) :
    Keyed (s.register lib pipe call syncs access).engine := by
  have hOutcome := call.keyed_outcome lib s.engine hKeyed
  unfold Collector.register
  split
  · rename_i hEq
    rw [hEq] at hOutcome
    exact hOutcome
  · rename_i hEq
    rw [hEq] at hOutcome
    exact hOutcome
  · rename_i hEq
    rw [hEq] at hOutcome
    exact keyed_of_sameRegistry hOutcome (row?_events lib pipe _ [] [] [] (SameRegistry.refl _) _).1

theorem change_cases (s : Collector) (gvr : GroupVersionResource)
    (u : Unstructured) (deleted : Bool) (access : Text → AccessResult) :
    (s.change lib pipe gvr u deleted access).engine = s.engine ∨
      (s.change lib pipe gvr u deleted access).engine =
        processDispatch lib pipe gvr s.engine ⟨some u, deleted, access⟩ := by
  unfold Collector.change
  dsimp only
  split
  · exact Or.inl rfl
  · split_ifs
    all_goals first | exact Or.inl rfl | exact Or.inr rfl

theorem keyed_step (s : Collector) (label : CollectorLabel) (hKeyed : Keyed s.engine) :
    Keyed (s.step lib pipe ns name label).engine := by
  cases label with
  | register r syncs access => exact keyed_register hKeyed _ syncs access
  | change gvr u deleted access =>
    rcases change_cases s gvr u deleted access with hSame | hEvent
    · exact hSame ▸ hKeyed
    · have hRegistry := (row?_processDispatch lib pipe gvr ns name [] (SameRegistry.refl s.engine)
          ⟨some u, deleted, access⟩).1
      rw [← hEvent] at hRegistry
      exact keyed_of_sameRegistry hKeyed hRegistry

theorem rowsFit_change (hKeyed : Keyed s.engine) (hFits : RowsFit lib ns name s)
    (gvr : GroupVersionResource) (u : Unstructured)
    (deleted : Bool) (access : Text → AccessResult) :
    RowsFit lib ns name (s.change lib pipe gvr u deleted access) := by
  intro uid item hRow
  rcases change_cases s gvr u deleted access with hSame | hEvent
  · rw [hSame] at hRow ⊢
    exact hFits uid item hRow
  · rcases row?_processDispatch lib pipe gvr ns name uid
      (SameRegistry.refl s.engine) ⟨some u, deleted, access⟩ with ⟨hRegistry, hAfter⟩
    rw [hEvent] at hRow ⊢
    rw [rowFits_congr hRegistry]
    rw [hAfter] at hRow
    rcases jobRow_self_or hKeyed _ _ with hKept | hGood
    · rw [hKept] at hRow
      exact hFits uid item hRow
    · exact hGood item hRow

/- After a call the rows fit iff the stale ones were reached. -/
theorem rowsFit_register_iff (hKeyed : Keyed s.engine) (hFits : RowsFit lib ns name s)
    (r : Revision) (syncs : Bool) (access : Nat → Text → AccessResult) :
    RowsFit lib ns name (s.register lib pipe (r.call ns name) syncs access) ↔
      StaleRowsReached lib ns name s (.register r syncs access) := by
  have hOutcomeKeyed := (r.call ns name).keyed_outcome lib s.engine hKeyed
  cases hOutcome : (r.call ns name).outcome lib s.engine with
  | suspended after =>
    have hAfter := (r.call ns name).outcome_suspended lib s.engine hOutcome
    simp only [Collector.register, StaleRowsReached, hOutcome]
    refine iff_of_true ?_ trivial
    intro uid item hRow
    rw [hAfter, store_unregisterTarget, Store.row?_removeTarget] at hRow
    rw [if_pos ⟨rfl, rfl⟩] at hRow
    cases hRow
  | invalidRules after err =>
    have hAfter := (r.call ns name).outcome_invalidRules lib s.engine hOutcome
    simp only [Collector.register, StaleRowsReached, hOutcome]
    refine iff_of_true ?_ trivial
    subst hAfter
    exact hFits
  | registered after gvr backfill =>
    have hAfterKeyed : Keyed after := by
      rw [hOutcome] at hOutcomeKeyed
      exact hOutcomeKeyed
    rcases (r.call ns name).outcome_registered lib s.engine
      hOutcome with ⟨hStore, hIndexed, st, hTarget, hLookup⟩
    have hKey : keyOf st.target = (r.call ns name).key := by
      rw [hTarget]
      rfl
    have hReg : RegisteredFor after gvr st :=
      registeredFor_of_keyed hAfterKeyed (hKey ▸ hLookup) (hKey ▸ hIndexed)
    have hEvents := rowsFit_events_iff lib pipe hAfterKeyed hReg access
        (s.dispatched lib after gvr backfill syncs)
    rw [hTarget, hStore] at hEvents
    simp only [Collector.register, StaleRowsReached, hOutcome]
    refine Iff.trans ?_ hEvents
    refine forall_congr' fun uid => ?_
    refine forall_congr' fun item => ?_
    refine imp_congr_right fun _ => ?_
    exact rowFits_congr (row?_events lib pipe gvr ns name uid (SameRegistry.refl after) _).1 item

end Steps

/-
  Through any sequence of calls and changes of objects, the rows of the target fit its registration
  after every step exactly when every call reaches the stale rows.
-/
theorem rowsFit_run_iff {lib : Libraries} {pipe : Pipeline} {ns name : Text}
    {s : Collector} (hKeyed : Keyed s.engine) (hFits : RowsFit lib ns name s)
    (labels : List CollectorLabel) : Run.Along (Collector.step lib pipe ns name)
        (fun s label => RowsFit lib ns name (s.step lib pipe ns name label)) s labels ↔
      Run.Along (Collector.step lib pipe ns name) (StaleRowsReached lib ns name) s labels := by
  apply Run.along_step_iff keyed_step _ hKeyed hFits
  intro s label hKeyed hFits
  cases label with
  | register r syncs access => exact rowsFit_register_iff hKeyed hFits r syncs access
  | change gvr u deleted access =>
    exact iff_of_true
      (rowsFit_change hKeyed hFits gvr u deleted access)
      trivial

/- A cluster with one deployment, and no target yet. -/
def oneDeployment : Collector where
  engine := Engine.fresh twoNamespaces
  informerScopes := ∅
  cluster gvr := if gvr = deploymentsGVR then [objectIn "team-a"] else []

/- The target for a kind in a set of namespaces. -/
def registerFor (kind : Text) (effective : List Text) : CollectorLabel :=
  .register
    { generation := 1
      spec := (targetIncluding []).spec
      profile := { deploymentProfile with spec := ⟨⟨"apps", "v1", kind⟩, []⟩ }
      opts := ⟨⟨[], []⟩, effective⟩
      listed := none }
    true (fun _ _ => .allowed)

def afterCalls (labels : List CollectorLabel) : Collector :=
  Run.exec (Collector.step Libraries.plain Pipeline.plain "team-a" "deployments")
    oneDeployment labels

/-
  A target that turns from deployments to another kind keeps its deployment row, and so does one
  that moves from one namespace to another.
-/
theorem changed_kind_and_moved_scope_keep_row :
    let changed := afterCalls [registerFor "Deployment" [("team-a" : Text)],
          registerFor "StatefulSet" [("team-a" : Text)]]
    let moved := afterCalls
        [registerFor "Deployment" [("team-a" : Text)], registerFor "Deployment" [("prod" : Text)]]
    (changed.engine.store.row? "team-a" "deployments"
        "uid-1").map Item.kind = some "Deployment".toList ∧
      ¬ RowsFit Libraries.plain "team-a" "deployments" changed ∧
      (moved.engine.store.row? "team-a" "deployments"
        "uid-1").map Item.namespace_ = some "team-a".toList ∧
      ¬ RowsFit Libraries.plain "team-a" "deployments" moved := by
  intro changed moved
  refine ⟨by decide +kernel, ?_, by decide +kernel, ?_⟩
  · intro hFits
    rcases hFits "uid-1" _ rfl with ⟨st, hLookup, hFit⟩
    cases hLookup
    exact absurd hFit.kind (by decide +kernel)
  · intro hFits
    rcases hFits "uid-1" _ rfl with ⟨st, hLookup, hFit⟩
    cases hLookup
    exact absurd hFit.namespace_ (by decide +kernel)

/-
  A target of two namespaces is watched in all of them, so narrowing it to one reaches the row of
  the other.
-/
theorem narrowed_target_reaches_row : Keyed oneDeployment.engine ∧
      RowsFit Libraries.plain "team-a" "deployments" oneDeployment ∧ Run.Along
        (Collector.step Libraries.plain Pipeline.plain "team-a" "deployments")
        (fun s label =>
          RowsFit Libraries.plain "team-a" "deployments"
            (s.step Libraries.plain Pipeline.plain "team-a" "deployments" label))
        oneDeployment
        [registerFor "Deployment" [("prod" : Text), ("team-a" : Text)],
          registerFor "Deployment" [("prod" : Text)]] := by
  have hKeyed : Keyed oneDeployment.engine := by
    intro key st hLookup
    cases hLookup
  have hFits : RowsFit Libraries.plain "team-a" "deployments" oneDeployment := by
    intro uid item hRow
    cases hRow
  refine ⟨hKeyed, hFits, (rowsFit_run_iff hKeyed hFits _).mpr ⟨?_, ?_, trivial⟩⟩
  · intro uid item hRow
    cases hRow
  · intro uid item hRow
    change (Store.empty.upsert _).row? _ _ uid = _ at hRow
    rw [Store.row?_upsert] at hRow
    split_ifs at hRow with hUid
    · right
      refine ⟨0, objectIn "team-a", rfl, hUid.2.2.symm, ?_⟩
      intro st _ hFailed
      cases hFailed.2
    · cases hRow

end Collect
end Kollect
