import Kollect.Controller.ClusterTarget
import Kollect.Controller.Target
import Kollect.Scope

/-
  One pass of the reconciler of cluster targets (`controller/kollectclustertarget_controller.go`)
  and the lists of namespaces it reads.

  A pass lists the namespaces three times: for the matched namespaces of the status, for the
  effective set, and for the cache of the engine. The first and the last list end the pass when they
  fail. The second counts as an empty list, and the registrations are compared with that.

  Key theorems include:
    * `collected_syncEngineTargets`
    * `drops_as_listed_iff`
-/

namespace Kollect

namespace Controller

open Collect

----
-- Reads
----

/- A cluster target with what else of it a pass looks at. -/
structure ClusterTargetObject where
  target : KollectClusterTarget
  profileNamespace : Text
  suspend : Bool
  deleting : Bool
  finalizer : Bool

/- How an update of the object ends. -/
inductive UpdateOutcome where
  | done
  | conflict
  | failed (err : Text)

/- How the read of the profile ends. -/
inductive ProfileRead where
  | found (profile : KollectProfile)
  | forbidden (err : Text)
  | failed (err : Text)

/- A list of namespaces, or the error of the call. -/
abbrev NamespaceList := Except Text (GoMap Text NamespaceMeta)

/- What the calls of a pass to the API server return. -/
structure ClusterReads where
  finalizerUpdate : UpdateOutcome
  profile : ProfileRead
  matchedListed : NamespaceList
  scopesListed : Except Text (List KollectClusterScope)
  metaListed : NamespaceList
  cacheListed : NamespaceList
  informerStarts : Text → Bool
  statusError : Option Text

/- How a pass ends; a reason is that of the condition. -/
inductive PassEnd where
  | ready
  | degraded (reason : Text)
  | finished
  | requeued
  | failed (err : Text)
deriving DecidableEq

/- The end once the condition is written. -/
def ClusterReads.written (reads : ClusterReads) (condition : PassEnd) : PassEnd :=
  match reads.statusError with
  | none => condition
  | some err => .failed err

def UpdateOutcome.passEnd : UpdateOutcome → PassEnd
  | .done => .finished
  | .conflict => .requeued
  | .failed err => .failed err

----
-- The Pass
----

/- `listNamespaceMeta`: a failed call is no namespaces. -/
def listNamespaceMeta : NamespaceList → GoMap Text NamespaceMeta
  | .error _ => ∅
  | .ok listed => listed

/-
  `loadClusterScopeBinding`: the error of the load, or the reason of a denial, or the scope that
  applies.
-/
def loadClusterScopeBinding (obj : ClusterTargetObject) (profile : KollectProfile)
    (listed : Except Text (List KollectClusterScope)) :
    Except Text (Except Text (Option KollectClusterScope)) := do
  match ← ClusterScope.loadCluster listed with
  | none => pure (.ok none)
  | some scope =>
    match ClusterScope.validateStaticRefNamespace scope obj.profileNamespace with
    | .error _ => pure (.error scopeReasonNSDenied)
    | .ok () =>
      match Fallible.checkAll (ClusterScope.validateGVKs scope)
          (Scope.collectRuleGVKs obj.target.collectionFilter profile.spec.targetGVK) with
      | .error _ => pure (.error scopeReasonGVKDenied)
      | .ok () => pure (.ok (some scope))

/-
  How far a pass comes: it ends early, withdrawing the target from the engine or not, or it has what
  it takes to collect.
-/
inductive Stage where
  | ended (withdraws : Bool) (condition : PassEnd)
  | collecting (profile : KollectProfile) (listed : GoMap Text NamespaceMeta)
      (scope : Option KollectClusterScope)

/- The part of `Reconcile` before the effective set. -/
def ClusterReads.stage (reads : ClusterReads) (obj : ClusterTargetObject) : Stage :=
  if obj.deleting then
    if obj.finalizer then .ended true reads.finalizerUpdate.passEnd
    else .ended false .finished
  else
    match obj.finalizer, reads.finalizerUpdate with
    | false, .conflict => .ended false .requeued
    | false, .failed err => .ended false (.failed err)
    | _, _ =>
      if obj.suspend then .ended true (reads.written (.degraded "Suspended"))
      else
        match reads.profile with
        | .forbidden _ => .ended true (reads.written (.degraded "ProfileForbidden"))
        | .failed _ => .ended true (reads.written (.degraded "ProfileNotFound"))
        | .found profile =>
          match reads.matchedListed with
          | .error err => .ended false (.failed ("list namespaces: " ++ err))
          | .ok listed =>
            match loadClusterScopeBinding obj profile reads.scopesListed with
            | .error err => .ended false (.failed err)
            | .ok (.error reason) => .ended true (reads.written (.degraded reason))
            | .ok (.ok scope) => .collecting profile listed scope

def clusterCeiling : Option KollectClusterScope → ScopeCeiling
  | none => noCeiling
  | some scope => ClusterScope.ceiling scope

/- The effective set that a list of namespaces gives. -/
def effectiveFrom (lib : Libraries) (e : Engine) (ct : KollectClusterTarget)
    (scope : Option KollectClusterScope) (nsMeta : GoMap Text NamespaceMeta) : List Text :=
  (computeFilterStatus lib ct.collectionFilter ct.namespaceSelector nsMeta (clusterCeiling scope)
    e.defaults).effective

/- Whether `syncEngineTargets` returns an error. -/
def syncFails (lib : Libraries) (e : Engine) (ct : KollectClusterTarget)
    (profile : KollectProfile) (effective : List Text) (ceiling : ScopeCeiling)
    (listed : Option (GoMap Text NamespaceMeta)) (informerStarts : Text → Bool) : Bool :=
  match listed with
  | none => true
  | some _ =>
    !(registerSynthetic lib ct profile ceiling informerStarts
      (e.refreshNamespaceCache listed) effective).2

structure ClusterTargetResult where
  engine : Engine
  condition : PassEnd
  status : Option FilterStatus

/- `Reconcile` of the cluster target controller. -/
def reconcileClusterTarget (lib : Libraries) (e : Engine) (obj : ClusterTargetObject)
    (reads : ClusterReads) : ClusterTargetResult :=
  match reads.stage obj with
  | .ended withdraws condition =>
    { engine := if withdraws then unregisterAll lib e obj.target else e
      condition := condition
      status := none }
  | .collecting profile listed scope =>
    let ct := obj.target
    let ceiling := clusterCeiling scope
    let computed := computeFilterStatus lib ct.collectionFilter ct.namespaceSelector
        (listNamespaceMeta reads.metaListed) ceiling e.defaults
    let status : FilterStatus :=
      { computed with
        matched :=
          matchIntentNamespaces lib ct.collectionFilter ct.namespaceSelector listed e.defaults }
    let cache := reads.cacheListed.toOption
    { engine :=
        syncEngineTargets lib e ct profile status.effective ceiling cache reads.informerStarts
      condition :=
        reads.written
          (if syncFails lib e ct profile status.effective ceiling cache reads.informerStarts then
            .degraded "InformerRegistrationFailed"
          else .ready)
      status := some status }

----
-- Registrations
----

/- A target of the name is registered in the namespace. -/
def RegisteredIn (e : Engine) (ct : KollectClusterTarget) (ns : Text) : Prop :=
  (e.targets.lookup (targetKey ns ct.name)).isSome = true

/- It is registered, and its rows are as given. -/
def CollectedIn (rows : Text → Option Item) (e : Engine) (ct : KollectClusterTarget)
    (ns : Text) : Prop :=
  RegisteredIn e ct ns ∧ ∀ uid, e.store.row? ns ct.name uid = rows uid

section Registrations

variable (lib : Libraries) {ct : KollectClusterTarget} {profile : KollectProfile}
variable {ceiling : ScopeCeiling} {ns : Text} {e : Engine} {rows : Text → Option Item}

theorem collected_outcome (hBefore : CollectedIn rows e ct ns) (other : Text) :
    CollectedIn rows ((syntheticCall ct profile ceiling other).outcome lib e).engine ct ns := by
  rcases (syntheticCall ct profile ceiling other).outcome_cases lib e with
    ⟨hSuspend, -⟩ | hSame | ⟨st, index, -, hNew⟩
  · cases hSuspend
  · rw [hSame]
    exact hBefore
  · rw [hNew]
    refine ⟨?_, hBefore.2⟩
    unfold RegisteredIn
    rw [GoMap.lookup_insert_ite]
    split_ifs
    · rfl
    · exact hBefore.1

theorem collected_unregisterEach (hSlash : '/' ∉ ns) {namespaces : List Text}
    (hNames : ∀ other ∈ namespaces, '/' ∉ other) (hNot : ns ∉ namespaces)
    (hBefore : CollectedIn rows e ct ns) :
    CollectedIn rows (unregisterEach lib ct.name e namespaces) ct ns := by
  induction namespaces generalizing e with
  | nil => exact hBefore
  | cons first rest ih =>
    rw [List.forall_mem_cons] at hNames
    rw [List.mem_cons, not_or] at hNot
    apply ih hNames.2 hNot.2
    refine ⟨?_, fun uid => ?_⟩
    · unfold RegisteredIn
      rw [lookup_unregisterTarget, if_neg]
      · exact hBefore.1
      · exact fun hKey => hNot.1 (targetKey_inj hSlash hNames.1 hKey).1
    · rw [store_unregisterTarget, Store.row?_removeTarget, if_neg fun hSame => hNot.1 hSame.1]
      exact hBefore.2 uid

variable {effective : List Text}

theorem collected_unregisterUnwanted (hSlash : '/' ∉ ns) (hIn : ns ∈ effective)
    (hBefore : CollectedIn rows e ct ns) :
    CollectedIn rows (unregisterUnwanted lib ct effective e) ct ns := by
  apply collected_unregisterEach lib hSlash _ _ hBefore
  · intro other hOther
    exact slash_notMem_namespacesForClusterTarget other (List.mem_of_mem_filter hOther)
  · intro hMem
    have hOut := (List.mem_filter.mp hMem).2
    exact of_decide_eq_true hOut hIn

/- What is in the effective set stays registered, with its rows. -/
theorem collected_syncEngineTargets (hSlash : '/' ∉ ns) (hBefore : CollectedIn rows e ct ns)
    (hIn : ns ∈ effective) (listed : Option (GoMap Text NamespaceMeta))
    (informerStarts : Text → Bool) : CollectedIn rows
      (syncEngineTargets lib e ct profile effective ceiling listed informerStarts) ct ns := by
  cases listed with
  | none => exact hBefore
  | some metas =>
    have hStart : CollectedIn rows (e.refreshNamespaceCache (some metas)) ct ns := hBefore
    have hLoop := registerSynthetic_induction (P := fun e' => CollectedIn rows e' ct ns)
      lib ct profile ceiling informerStarts
      (fun other (_ : other ∈ effective) e' hSoFar => collected_outcome lib hSoFar other) hStart
    unfold syncEngineTargets
    dsimp only
    split
    · rename_i e' hRun
      rw [hRun] at hLoop
      exact hLoop
    · rename_i e' hRun
      rw [hRun] at hLoop
      exact collected_unregisterUnwanted lib hSlash hIn hLoop

/- An empty effective set drops every registration. -/
theorem unregistered_syncEngineTargets (r : Registry) (hLabel : isDnsLabel ns = true)
    (metas : GoMap Text NamespaceMeta) (informerStarts : Text → Bool) : ¬ RegisteredIn
      (syncEngineTargets lib r.engine ct profile [] ceiling (some metas) informerStarts) ct ns := by
  have hAll : syncEngineTargets lib r.engine ct profile [] ceiling (some metas) informerStarts =
        unregisterAll lib (r.engine.refreshNamespaceCache (some metas)) ct := by
    unfold syncEngineTargets registerSynthetic unregisterUnwanted unregisterAll
    simp
  let fresh : Registry := ⟨r.engine.refreshNamespaceCache (some metas), r.keyed, r.labelled⟩
  have hSlash := slash_notMem_of_isDnsLabel hLabel
  rw [hAll]
  cases hLookup : fresh.engine.targets.lookup (targetKey ns ct.name) with
  | none =>
    have hNone := lookup_unregisterEach lib ct.name (targetKey ns ct.name)
      (namespacesForClusterTarget fresh.engine ct.name) fresh.engine (Or.inl hLookup)
    change ¬ (((unregisterEach lib ct.name fresh.engine
      (namespacesForClusterTarget fresh.engine ct.name)).targets.lookup _).isSome = true)
    rw [hNone]
    exact Bool.false_ne_true
  | some st =>
    have hKey := fresh.keyed _ st hLookup
    have hOwn := fresh.labelled _ st hLookup
    have hName := (targetKey_inj hSlash (slash_notMem_of_isDnsLabel hOwn) hKey).2
    have hGone := fresh.lookup_unregisterAll lib ct hLookup hName.symm
    change ¬ (((unregisterAll lib fresh.engine ct).targets.lookup _).isSome = true)
    rw [hGone]
    exact Bool.false_ne_true

end Registrations

----
-- Dropped Registrations
----

/- The pass withdraws the target as a whole. -/
def Withdrawn (obj : ClusterTargetObject) (reads : ClusterReads) : Prop :=
  ∃ condition, reads.stage obj = .ended true condition

/- One of the lists that were read leaves the namespace out. -/
def OutsideListed (lib : Libraries) (e : Engine) (obj : ClusterTargetObject)
    (reads : ClusterReads) (ns : Text) : Prop :=
  ∃ profile listed scope metas, reads.stage obj = .collecting profile listed scope ∧
    reads.metaListed = .ok metas ∧ ns ∉ effectiveFrom lib e obj.target scope metas

def ListFailed (reads : ClusterReads) : Prop :=
  (∃ err, reads.matchedListed = .error err) ∨ (∃ err, reads.metaListed = .error err) ∨
    ∃ err, reads.cacheListed = .error err

/- Something was registered and nothing is any more. -/
def Emptied (ct : KollectClusterTarget) (before after : Engine) : Prop :=
  (∃ ns, isDnsLabel ns = true ∧ RegisteredIn before ct ns) ∧
    ∀ ns, isDnsLabel ns = true → ¬ RegisteredIn after ct ns

/-
  A registration and its rows are dropped only with the target as a whole or by a list that was
  read; a list that failed does not empty the collection of a target reported ready.
-/
structure DropsAsListed
    (lib : Libraries) (e : Engine) (obj : ClusterTargetObject) (reads : ClusterReads) : Prop where
  dropped : ∀ ns, isDnsLabel ns = true → RegisteredIn e obj.target ns →
    ¬ RegisteredIn (reconcileClusterTarget lib e obj reads).engine obj.target ns →
    Withdrawn obj reads ∨ OutsideListed lib e obj reads ns
  rows : ∀ ns uid, isDnsLabel ns = true → RegisteredIn e obj.target ns →
    (reconcileClusterTarget lib e obj reads).engine.store.row? ns obj.target.name uid ≠
      e.store.row? ns obj.target.name uid →
    Withdrawn obj reads ∨ OutsideListed lib e obj reads ns
  emptied : ListFailed reads → (reconcileClusterTarget lib e obj reads).condition = .ready →
    ¬ Emptied obj.target e (reconcileClusterTarget lib e obj reads).engine

/- Only the list behind the effective set fails, and there is something to drop. -/
def ListLost (e : Engine) (obj : ClusterTargetObject) (reads : ClusterReads) : Prop :=
  (∃ profile listed scope, reads.stage obj = .collecting profile listed scope) ∧
    (∃ err, reads.metaListed = .error err) ∧ (∃ metas, reads.cacheListed = .ok metas) ∧
    ∃ ns, isDnsLabel ns = true ∧ RegisteredIn e obj.target ns

section Reconcile

variable {lib : Libraries} {e : Engine} {obj : ClusterTargetObject} {reads : ClusterReads}
variable {profile : KollectProfile} {listed : GoMap Text NamespaceMeta}
variable {scope : Option KollectClusterScope}

theorem written_eq_ready {condition : PassEnd} (hReady : reads.written condition = .ready) :
    condition = .ready := by
  unfold ClusterReads.written at hReady
  split at hReady
  · exact hReady
  · cases hReady

theorem written_degraded (reads : ClusterReads) (reason : Text) :
    reads.written (.degraded reason) ≠ .ready := by
  intro hReady
  cases written_eq_ready hReady

theorem passEnd_ne_ready (outcome : UpdateOutcome) : outcome.passEnd ≠ .ready := by
  cases outcome with
  | done | conflict | failed => exact nofun

/- A pass that ends early is not reported ready, and one that collects has listed the namespaces. -/
def Stage.Sound (reads : ClusterReads) : Stage → Prop
  | .ended _ condition => condition ≠ .ready
  | .collecting _ listed _ => reads.matchedListed = .ok listed

theorem stage_sound (reads : ClusterReads) (obj : ClusterTargetObject) :
    (reads.stage obj).Sound reads := by
  unfold ClusterReads.stage
  split_ifs
  · exact passEnd_ne_ready _
  · exact nofun
  · split
    · exact nofun
    · exact nofun
    · exact written_degraded reads _
  · split
    · exact nofun
    · exact nofun
    · split
      · exact written_degraded reads _
      · exact written_degraded reads _
      · split
        · exact nofun
        · rename_i hListed
          split
          · exact nofun
          · exact written_degraded reads _
          · exact hListed

theorem engine_collecting (hStage : reads.stage obj = .collecting profile listed scope) :
    (reconcileClusterTarget lib e obj reads).engine = syncEngineTargets lib e obj.target profile
        (effectiveFrom lib e obj.target scope (listNamespaceMeta reads.metaListed))
        (clusterCeiling scope) reads.cacheListed.toOption
        reads.informerStarts := by
  unfold reconcileClusterTarget
  rw [hStage]
  rfl

/- A target is ready only with a list for the cache. -/
theorem cacheListed_of_ready
    (hReady : (reconcileClusterTarget lib e obj reads).condition = .ready) :
    ∃ profile listed scope metas, reads.stage obj = .collecting profile listed scope ∧
      reads.cacheListed = .ok metas := by
  unfold reconcileClusterTarget at hReady
  cases hStage : reads.stage obj with
  | ended withdraws condition =>
    have hSound := stage_sound reads obj
    rw [hStage] at hSound hReady
    exact absurd hReady hSound
  | collecting profile listed scope =>
    rw [hStage] at hReady
    have hSynced := written_eq_ready hReady
    split_ifs at hSynced with hFails
    cases hCache : reads.cacheListed with
    | error err =>
      rw [hCache] at hFails
      exact absurd rfl hFails
    | ok metas => exact ⟨profile, listed, scope, metas, rfl, rfl⟩

section Kept

variable {ns : Text} (hKept : ¬ ListLost e obj reads) (hLabel : isDnsLabel ns = true)
  (hBefore : RegisteredIn e obj.target ns)

include hKept hLabel hBefore

theorem metaListed_of_kept {metas : GoMap Text NamespaceMeta}
    (hStage : reads.stage obj = .collecting profile listed scope)
    (hCache : reads.cacheListed = .ok metas) : ∃ listed', reads.metaListed = .ok listed' := by
  cases hMeta : reads.metaListed with
  | error err =>
    exact absurd ⟨⟨profile, listed, scope, hStage⟩, ⟨err, hMeta⟩,
      ⟨metas, hCache⟩, ns, hLabel, hBefore⟩ hKept
  | ok listed' => exact ⟨listed', rfl⟩

theorem collected_of_kept : (Withdrawn obj reads ∨ OutsideListed lib e obj reads ns) ∨
    CollectedIn (e.store.row? ns obj.target.name)
      (reconcileClusterTarget lib e obj reads).engine obj.target ns := by
  have hNow : CollectedIn (e.store.row? ns obj.target.name) e obj.target ns :=
    ⟨hBefore, fun _ => rfl⟩
  cases hStage : reads.stage obj with
  | ended withdraws condition =>
    cases withdraws with
    | true => exact .inl (.inl ⟨condition, hStage⟩)
    | false =>
      right
      unfold reconcileClusterTarget
      rw [hStage]
      exact hNow
  | collecting profile listed scope =>
    rw [engine_collecting hStage]
    cases hCache : reads.cacheListed with
    | error err => exact .inr hNow
    | ok metas =>
      rcases metaListed_of_kept hKept hLabel hBefore hStage hCache with ⟨listed', hMeta⟩
      rw [hMeta]
      by_cases hIn : ns ∈ effectiveFrom lib e obj.target scope listed'
      · exact .inr
          (collected_syncEngineTargets lib (slash_notMem_of_isDnsLabel hLabel) hNow hIn _ _)
      · exact .inl (.inr ⟨profile, listed, scope, listed', hStage, hMeta, hIn⟩)

end Kept

end Reconcile

/-
  A pass drops registrations as listed exactly when it does not lose the list behind the effective
  set: that list counts as empty when it fails, and every registration is dropped.
-/
theorem drops_as_listed_iff (lib : Libraries) (r : Registry) (obj : ClusterTargetObject)
    (reads : ClusterReads) :
    DropsAsListed lib r.engine obj reads ↔ ¬ ListLost r.engine obj reads := by
  constructor
  · rintro hDrops ⟨⟨profile, listed, scope, hStage⟩,
      ⟨err, hMeta⟩, ⟨metas, hCache⟩, ns, hLabel, hBefore⟩
    have hGone :
        ¬ RegisteredIn (reconcileClusterTarget lib r.engine obj reads).engine obj.target ns := by
      rw [engine_collecting hStage, hMeta, hCache]
      exact unregistered_syncEngineTargets lib r hLabel metas reads.informerStarts
    rcases hDrops.dropped ns hLabel hBefore hGone with
      ⟨condition, hEnded⟩ | ⟨_, _, _, metas', -, hListed, -⟩
    · rw [hStage] at hEnded
      cases hEnded
    · rw [hMeta] at hListed
      cases hListed
  · intro hKept
    refine ⟨?_, ?_, ?_⟩
    · intro ns hLabel hBefore hGone
      exact (collected_of_kept hKept hLabel hBefore).resolve_right fun hNow => hGone hNow.1
    · intro ns uid hLabel hBefore hRow
      exact (collected_of_kept hKept hLabel hBefore).resolve_right fun hNow => hRow (hNow.2 uid)
    · rintro hFailed hReady ⟨⟨ns, hLabel, hBefore⟩, -⟩
      rcases cacheListed_of_ready hReady with ⟨profile, listed, scope, metas, hStage, hCache⟩
      rcases metaListed_of_kept hKept hLabel hBefore hStage hCache with ⟨listed', hMeta⟩
      have hMatched := stage_sound reads obj
      rw [hStage] at hMatched
      rcases hFailed with ⟨err, h⟩ | ⟨err, h⟩ | ⟨err, h⟩
      · rw [show reads.matchedListed = .ok listed from hMatched] at h
        cases h
      · rw [hMeta] at h
        cases h
      · rw [hCache] at h
        cases h

/- The platform team's target after a pass, with one row. -/
def syncedRegistry : Registry :=
  let fresh : Registry :=
    { engine :=
        { Engine.fresh twoNamespaces with store := Store.empty.upsert teamRow }
      keyed := fun _ _ hLookup => by cases hLookup
      labelled := fun _ _ hLookup => by cases hLookup }
  fresh.run Libraries.plain platformTarget
    (.sync deploymentProfile [("prod" : Text), ("team-a" : Text)]
      (by decide +kernel) noCeiling (some twoNamespaces) (fun _ => true))

def platformObject : ClusterTargetObject where
  target := platformTarget
  profileNamespace := "platform"
  suspend := false
  deleting := false
  finalizer := true

/- Every call succeeds but the second list of namespaces. -/
def secondListFails : ClusterReads where
  finalizerUpdate := .done
  profile := .found deploymentProfile
  matchedListed := .ok twoNamespaces
  scopesListed := .ok []
  metaListed := .error "timeout"
  cacheListed := .ok twoNamespaces
  informerStarts := fun _ => true
  statusError := none

/- The target is reported ready, and its rows are gone. -/
theorem failed_list_empties_collection :
    let result :=
      reconcileClusterTarget Libraries.plain syncedRegistry.engine platformObject secondListFails
    RegisteredIn syncedRegistry.engine platformTarget "team-a" ∧
      syncedRegistry.engine.store.row? "team-a" "deployments" "uid-1" = some teamRow ∧
      ¬ RegisteredIn result.engine platformTarget "team-a" ∧
      result.engine.store.row? "team-a" "deployments" "uid-1" = none ∧
      result.condition = .ready ∧
      ¬ DropsAsListed Libraries.plain syncedRegistry.engine platformObject secondListFails := by
  intro result
  have hBefore : RegisteredIn syncedRegistry.engine platformTarget "team-a" := by
    unfold RegisteredIn
    decide +kernel
  have hGone : ¬ RegisteredIn result.engine platformTarget "team-a" := by
    unfold RegisteredIn
    decide +kernel
  refine ⟨hBefore, rfl, hGone, rfl, rfl, ?_⟩
  intro hDrops
  rcases hDrops.dropped "team-a" (by decide) hBefore hGone with
    ⟨condition, hEnded⟩ | ⟨_, _, _, metas, -, hListed, -⟩
  · cases hEnded
  · cases hListed

end Controller

end Kollect
