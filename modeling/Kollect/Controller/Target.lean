import Kollect.Collect.Engine
import Kollect.Scope

/-
  One reconcile pass of a target, from the scope checks to the registration
  (`controller/kollecttarget_controller.go`, `controller/scope_check.go`,
  `controller/target_filter_resolve.go`).

  A pass loads the tenant's scope up to three times: for the enforcement, for the namespace set the
  enforcement looks at, and for the set that is registered. The first call refuses the target when
  it fails; the other two take a failure for an empty ceiling.

  Key theorems include:
    * `accepts_registerResolved_iff`
    * `scopeRespected_reconcile_iff`
-/

namespace Kollect
namespace Controller

open Collect

----
-- Scope Loads
----

/- The scopes of a tenant namespace that has some. -/
structure TenantScopes where
  first : KollectScope
  rest : List KollectScope

def TenantScopes.enforced (scopes : TenantScopes) : KollectScope :=
  Scope.oldestByName scopes.first scopes.rest

/- How one `scope.Load` call of a pass ends. -/
inductive LoadOutcome where
  | success
  | notFound
  | failed (err : Text)

/- What the list call behind the load returns. -/
def LoadOutcome.listed (scopes : TenantScopes) : LoadOutcome → Except Text (List KollectScope)
  | success => .ok (scopes.first :: scopes.rest)
  | notFound => .ok []
  | failed err => .error err

def noCeiling : ScopeCeiling := ⟨[], []⟩

/- A failed load counts as no scope. -/
def scopeCeilingForTarget (tenantNS : Text) (listed : Except Text (List KollectScope)) :
    ScopeCeiling :=
  match Scope.load tenantNS listed with
  | .error _ => noCeiling
  | .ok none => noCeiling
  | .ok (some scope) => Scope.ceiling scope

theorem scopeCeilingForTarget_cases
    (scopes : TenantScopes) (tenantNS : Text) (outcome : LoadOutcome) :
    (outcome = .success ∧
        scopeCeilingForTarget tenantNS (outcome.listed scopes) = Scope.ceiling scopes.enforced) ∨
      (outcome ≠ .success ∧
        scopeCeilingForTarget tenantNS (outcome.listed scopes) = noCeiling) := by
  cases outcome with
  | success => exact Or.inl ⟨rfl, rfl⟩
  | notFound | failed => exact Or.inr ⟨by simp, rfl⟩

----
-- The Filter Status
----

structure FilterStatus where
  matched : List Text
  effective : List Text
  activeRules : Nat
  ceiling : ScopeCeiling

def computeFilterStatus (lib : Libraries) (filter : CollectionFilterSpec)
    (namespaceSelector : Option LabelSelector)
    (nsMeta : GoMap Text NamespaceMeta) (ceiling : ScopeCeiling)
    (defaults : NamespaceDefaults) : FilterStatus :=
  let matched := matchIntentNamespaces lib filter namespaceSelector nsMeta defaults
  { matched := matched
    effective := effectiveNamespaces matched ceiling filter defaults
    activeRules := filter.resourceRules.length
    ceiling := ceiling }

variable (lib : Libraries) (e : Engine) (target : KollectTarget)

/- The status is computed from a namespace cache just read. -/
def resolveTargetFilterStatus (scopesListed : Except Text (List KollectScope))
    (nsListed : Option (GoMap Text NamespaceMeta)) : Engine × FilterStatus :=
  let ceiling := scopeCeilingForTarget target.namespace_ scopesListed
  let e := e.refreshNamespaceCache nsListed
  (e, computeFilterStatus lib target.spec.collectionFilter
      target.spec.namespaceSelector e.nsMeta ceiling e.defaults)

----
-- Enforcement
----

/- The reason and message of a degraded condition. -/
structure Degraded where
  reason : Text
  message : Text
deriving DecidableEq

def scopeReasonLookupFailed : Text := "ScopeLookupFailed"
def scopeReasonGVKDenied : Text := "ScopeGVKDenied"
def scopeReasonNSDenied : Text := "ScopeNamespaceDenied"

/- The namespaces a target stands for: the matched ones, else the effective ones, else its own. -/
def intentNamespaces (target : KollectTarget) (status : FilterStatus) : List Text :=
  if !status.matched.isEmpty then status.matched
  else if !status.effective.isEmpty then status.effective
  else [target.namespace_]

/- The namespace half of the enforcement. -/
def enforceNamespaces (scope : KollectScope) (target : KollectTarget)
    (status : FilterStatus) : Except Text Unit := do
  Scope.validateTargetIncludedNamespaces scope (intentNamespaces target status)
  if !status.effective.isEmpty then Scope.validateWorkloadNamespaces scope status.effective

/-
  Whether the target is let through. The engine's namespace cache is refreshed on the way when a
  scope is enforced.
-/
def enforceTarget (profile : KollectProfile)
    (bindingListed ceilingListed : Except Text (List KollectScope))
    (nsListed : Option (GoMap Text NamespaceMeta)) : Engine × Except Degraded Unit :=
  match Scope.load target.namespace_ bindingListed with
  | .error err => (e, .error ⟨scopeReasonLookupFailed, err⟩)
  | .ok none => (e, .ok ())
  | .ok (some scope) =>
    match Scope.validateResourceRuleGVKs scope
        (Scope.collectRuleGVKs target.spec.collectionFilter profile.spec.targetGVK) with
    | .error err => (e, .error ⟨scopeReasonGVKDenied, err⟩)
    | .ok () =>
      let resolved := resolveTargetFilterStatus lib e target ceilingListed nsListed
      (resolved.1, (enforceNamespaces scope target resolved.2).mapError
          (fun err => ⟨scopeReasonNSDenied, err⟩))

----
-- The Pass
----

/- How the read of the target's profile ends. -/
inductive ProfileLookup where
  | found (profile : KollectProfile)
  | notFound
  | failed (err : Text)

/- What a pass over a live target reads from the API server. -/
structure TargetReads where
  profile : ProfileLookup
  enforceLoad : LoadOutcome
  checkLoad : LoadOutcome
  ceilingLoad : LoadOutcome
  checkListed : Option (GoMap Text NamespaceMeta)
  resolveListed : Option (GoMap Text NamespaceMeta)
  registerListed : Option (GoMap Text NamespaceMeta)

/-
  A pass over a target. It stops before the target is looked at: at a read that fails, at a
  finalizer that cannot be added (a conflict is retried and is no error), or at a target that is
  being deleted and has no finalizer. It finds the target gone or finalises it, where taking the
  finalizer off can fail. Or it goes through a live target.
-/
inductive TargetPass where
  | stopped (err : Option Text)
  | gone (err : Option Text)
  | live (reads : TargetReads)

structure TargetResult where
  engine : Engine
  degraded : Option Degraded
  err : Option Text

/- Only a failed lookup is retried. -/
def degradeScopeDenied (denial : Degraded) : TargetResult where
  engine := unregisterTarget lib e target.namespace_ target.name
  degraded := some denial
  err :=
    if denial.reason = scopeReasonLookupFailed then
      some ("KollectScope lookup failed for " ++ target.namespace_ ++ "/" ++ target.name ++ ": " ++
          denial.message)
    else none

/- The last part of a pass: resolve the set and register. -/
def registerResolved (lib : Libraries) (scopes : TenantScopes) (e : Engine)
    (target : KollectTarget) (profile : KollectProfile) (reads : TargetReads) : RegisterOutcome :=
  let resolved :=
    resolveTargetFilterStatus lib e target (reads.ceilingLoad.listed scopes) reads.resolveListed
  registerTarget lib resolved.1 target profile ⟨resolved.2.ceiling, resolved.2.effective⟩
    reads.registerListed

/- The check of a pass. -/
def TargetReads.enforce (lib : Libraries) (scopes : TenantScopes) (e : Engine)
    (target : KollectTarget) (profile : KollectProfile)
    (reads : TargetReads) : Engine × Except Degraded Unit :=
  enforceTarget lib e target profile (reads.enforceLoad.listed scopes)
    (reads.checkLoad.listed scopes) reads.checkListed

/- The condition a failed registration sets. -/
def registrationDegraded : RegisterOutcome → Option Degraded
  | .suspended _ => none
  | .invalidRules _ err => some ⟨"InformerRegistrationFailed", err⟩
  | .registered _ _ _ => none

/- A pass once the target was read. -/
def reconcileLive (lib : Libraries) (scopes : TenantScopes) (e : Engine)
    (target : KollectTarget) (reads : TargetReads) : TargetResult :=
  if target.spec.suspend then
    ⟨unregisterTarget lib e target.namespace_ target.name,
      some ⟨"Suspended", "spec.suspend is true"⟩, none⟩
  else if target.spec.profileRef = [] then
    ⟨e, some ⟨"MissingProfileRef", "spec.profileRef is required"⟩, none⟩
  else
    match reads.profile with
    | .notFound =>
      ⟨e, some ⟨"ProfileNotFound", "KollectProfile \"" ++ target.spec.profileRef ++
            "\" not found in namespace \"" ++ target.namespace_ ++ "\""⟩, none⟩
    | .failed err => ⟨e, none, some err⟩
    | .found profile =>
      let checked := reads.enforce lib scopes e target profile
      match checked.2 with
      | .error denial => degradeScopeDenied lib checked.1 target denial
      | .ok () =>
        let outcome := registerResolved lib scopes checked.1 target profile reads
        ⟨outcome.engine, registrationDegraded outcome, none⟩

def TargetPass.reconcile (lib : Libraries) (scopes : TenantScopes) (e : Engine)
    (target : KollectTarget) : TargetPass → TargetResult
  | stopped err => ⟨e, none, err⟩
  | gone err => ⟨unregisterTarget lib e target.namespace_ target.name, none, err⟩
  | live reads => reconcileLive lib scopes e target reads

----
-- Acceptance
----

/- The engine accepts the object for the registered target. -/
def Accepts (lib : Libraries) (e : Engine) (key : Text)
    (gvr : GroupVersionResource) (u : Unstructured) : Prop :=
  ∃ st, e.targets.lookup key = some st ∧ matchesTarget lib e st gvr u = .accepted

/-
  No object is accepted for the target whose namespace the scope denies or leaves out of its allowed
  list.
-/
def ScopeRespected (scope : KollectScope) : Prop :=
  ∀ gvr u, Accepts lib e (keyOf target) gvr u → Scope.Permits scope (resourceNamespace u)

/- The object passes what is checked after its namespace. -/
def PassesRules (profile : KollectProfile) (compiled : List CompiledResourceRule)
    (gvr : GroupVersionResource) (u : Unstructured) : Prop :=
  resourceMatchesRules lib u gvr target profile compiled e.nsMeta = true ∧
    shouldCollect u.labels (e.namespaceMetaFor (resourceNamespace u)) target = true

theorem matchesTarget_accepted_iff {lib : Libraries} {e : Engine} {st : TargetState}
    {gvr : GroupVersionResource} {u : Unstructured} : matchesTarget lib e st gvr u = .accepted ↔
      namespaceMatches lib e st.target st.effectiveNamespaces
          st.scopeEnforced (resourceNamespace u) = true ∧
        PassesRules lib e st.target st.profile st.compiledRules gvr u := by
  unfold matchesTarget PassesRules
  split_ifs with hNamespace hRules hWatch <;> simp_all

theorem scopeRespected_unregisterTarget (scope : KollectScope) :
    ScopeRespected lib (unregisterTarget lib e target.namespace_ target.name) target scope := by
  intro gvr u hAccepts
  rcases hAccepts with ⟨st, hLookup, _⟩
  have hGone :
      (unregisterTarget lib e target.namespace_ target.name).targets.lookup (keyOf target) = none :=
    AList.lookup_erase _ _
  rw [hGone] at hLookup
  cases hLookup

----
-- The Registered Set
----

section RegisteredSet

variable {lib : Libraries} {e : Engine} {target : KollectTarget} {profile : KollectProfile}
variable {opts : RegisterTargetOptions} {listed : Option (GoMap Text NamespaceMeta)}
variable {compiled : List CompiledResourceRule}

variable (e) (profile) (opts) (listed) in
theorem accepts_registered_iff (hSuspend : target.spec.suspend = false)
    (hRules : compileResourceRules lib target.spec.collectionFilter.resourceRules = .ok compiled)
    (gvr : GroupVersionResource) (u : Unstructured) :
    Accepts lib (registerTarget lib e target profile opts listed).engine (keyOf target) gvr u ↔
      namespaceMatches lib (registrationCache e opts listed) target
          (resolveEffective lib (registrationCache e opts listed) target opts)
          (ceilingRestrictsNamespaces opts.scopeCeiling) (resourceNamespace u) = true ∧
        PassesRules lib (registrationCache e opts listed) target profile compiled gvr u := by
  rcases registerTarget_registered lib e target profile opts
    listed hSuspend hRules with ⟨index, hEngine⟩
  rw [hEngine]
  unfold Accepts
  rw [AList.lookup_insert]
  constructor
  · intro hSome
    rcases hSome with ⟨st, hSt, hMatch⟩
    rw [← Option.some.inj hSt] at hMatch
    exact matchesTarget_accepted_iff.mp hMatch
  · intro hBoth
    exact ⟨_, rfl, matchesTarget_accepted_iff.mpr hBoth⟩

/- The namespaces computed under a ceiling from a cache. -/
def computedNamespaces (lib : Libraries) (e : Engine) (target : KollectTarget)
    (ceiling : ScopeCeiling) : List Text :=
  resolveEffective lib e target ⟨ceiling, []⟩

/-
  Passing the computed set on changes nothing: an empty one is computed again from the cache the
  registration reads.
-/
theorem resolveEffective_computed
    (ceiling : ScopeCeiling) (listed : Option (GoMap Text NamespaceMeta)) : resolveEffective lib
        (registrationCache e ⟨ceiling, computedNamespaces lib e target ceiling⟩ listed)
        target
        ⟨ceiling, computedNamespaces lib e target ceiling⟩ = computedNamespaces lib
        (registrationCache e ⟨ceiling, computedNamespaces lib e target ceiling⟩ listed)
        target ceiling := by
  cases hEmpty : (computedNamespaces lib e target ceiling).isEmpty with
  | true =>
    rw [List.isEmpty_iff.mp hEmpty]
    rfl
  | false =>
    unfold registrationCache resolveEffective
    simp only [hEmpty, Bool.false_eq_true, if_false]

/-
  A namespace the target admits when no ceiling is known: the target's own filter selects it, or the
  filter selects no namespace and the selector alone admits it.
-/
def AdmitsWithoutCeiling (lib : Libraries) (e : Engine) (target : KollectTarget)
    (ns : Text) : Prop :=
  (∃ nsInfo, e.nsMeta.lookup ns = some nsInfo ∧
      PassesIntent lib target.spec.collectionFilter target.spec.namespaceSelector e.defaults ns
        nsInfo.labels) ∨
    (¬ SomeNamespacePasses lib e.nsMeta e.defaults target noCeiling ∧
      match pinnedNamespace target.spec.namespaceSelector with
      | some name => ns = name
      | none =>
        ∃ nsInfo, e.nsMeta.lookup ns = some nsInfo ∧
          namespaceMatchesSelector lib target.spec.namespaceSelector nsInfo.labels = true)

variable {ns : Text}

theorem passesFilter_noCeiling_iff {filter : CollectionFilterSpec} {selector : Option LabelSelector}
    {defaults : NamespaceDefaults} {nsLabels : Labels} :
    PassesFilter lib filter selector defaults noCeiling ns
        nsLabels ↔ PassesIntent lib filter selector defaults ns
        nsLabels :=
  ⟨fun hPass => hPass.toPassesIntent, fun hIntent => passesFilter_of_unrestricted rfl hIntent⟩

/- Without a ceiling the engine admits just these. -/
theorem namespaceMatches_noCeiling_iff (hNonempty : ns ≠ []) : namespaceMatches lib e target
        (computedNamespaces lib e target noCeiling) false
        ns = true ↔ AdmitsWithoutCeiling lib e target ns := by
  have hNil : resolveEffective lib e target ⟨noCeiling, []⟩ = [] ↔
        ¬ SomeNamespacePasses lib e.nsMeta e.defaults target noCeiling :=
    resolveEffective_eq_nil_iff rfl
  unfold AdmitsWithoutCeiling computedNamespaces
  by_cases hSome : SomeNamespacePasses lib e.nsMeta e.defaults target noCeiling
  · rw [namespaceMatches_of_nonempty (hNil.not.mpr (not_not_intro hSome)),
      mem_resolveEffective_iff rfl]
    simp [hNonempty, hSome, passesFilter_noCeiling_iff]
  · rw [hNil.mpr hSome, namespaceMatches_fallback_iff]
    constructor
    · exact fun hSelected => Or.inr ⟨hSome, hSelected⟩
    · intro hAdmits
      rcases hAdmits with ⟨nsInfo, hLookup, hIntent⟩ | hAlone
      · refine absurd ?_ hSome
        exact ⟨ns, hNonempty, nsInfo, hLookup, passesFilter_noCeiling_iff.mpr hIntent⟩
      · exact hAlone.2

/- Under the scope's own ceiling only permitted ones match. -/
theorem permits_of_namespaceMatches {scope : KollectScope} (hMatches :
      namespaceMatches lib e target (computedNamespaces lib e target (Scope.ceiling scope))
          (ceilingRestrictsNamespaces (Scope.ceiling scope))
          ns = true) : Scope.Permits scope ns := by
  by_cases hEmpty : computedNamespaces lib e target (Scope.ceiling scope) = []
  · -- nothing matches under a ceiling, so there is no list
    rw [hEmpty] at hMatches
    cases hCeiling : ceilingRestrictsNamespaces (Scope.ceiling scope) with
    | true =>
      rw [hCeiling, namespaceMatches_enforced] at hMatches
      cases hMatches
    | false =>
      simp only [ceilingRestrictsNamespaces, Scope.ceiling,
        Bool.or_eq_false_iff, Bool.not_eq_false', List.isEmpty_iff] at hCeiling
      unfold Scope.Permits
      rw [hCeiling.1, hCeiling.2]
      simp
  · rw [namespaceMatches_of_nonempty hEmpty] at hMatches
    rcases (mem_resolveEffective_iff rfl).mp hMatches with ⟨_, nsInfo, _, hPass⟩
    exact ⟨hPass.notDenied, hPass.allowed⟩

end RegisteredSet

----
-- When A Pass Respects The Scope
----

section Pass

variable (lib : Libraries) (scopes : TenantScopes) (e : Engine) (target : KollectTarget)
variable (profile : KollectProfile) (reads : TargetReads)

def TargetReads.ceiling : ScopeCeiling :=
  scopeCeilingForTarget target.namespace_ (reads.ceilingLoad.listed scopes)

/-
  The engine whose namespace cache the registration reads: it lists the namespaces once more when
  the set of the resolve is empty.
-/
def TargetReads.cache : Engine :=
  let ceiling := reads.ceiling scopes target
  let e := e.refreshNamespaceCache reads.resolveListed
  registrationCache e ⟨ceiling, computedNamespaces lib e target ceiling⟩ reads.registerListed

/-
  Every object that passes the rules and that the target admits by its own filter is in a permitted
  namespace.
-/
def FilterWithinScope (cache : Engine) (compiled : List CompiledResourceRule) : Prop :=
  ∀ gvr u, AdmitsWithoutCeiling lib cache target (resourceNamespace u) →
      PassesRules lib cache target profile compiled gvr u →
        Scope.Permits scopes.enforced (resourceNamespace u)

/-
  What a registration of the pass must meet: rules that do not compile leave the earlier
  registration, and otherwise the last load succeeds or the filter stays within the scope.
-/
def RegistersWithinScope : Prop :=
  match compileResourceRules lib target.spec.collectionFilter.resourceRules with
  | .error _ =>
    ScopeRespected lib (e.refreshNamespaceCache reads.resolveListed) target scopes.enforced
  | .ok compiled =>
    reads.ceilingLoad = .success ∨
      FilterWithinScope lib scopes target profile (reads.cache lib scopes e target) compiled

/-
  The condition on a pass. Where the pass does not reach the scope checks the earlier registration
  stays, so it has to be within the scope already.
-/
def TargetPass.WithinScope : TargetPass → Prop
  | stopped _ => ScopeRespected lib e target scopes.enforced
  | gone _ => True
  | live reads =>
    target.spec.suspend = true ∨
      if target.spec.profileRef = [] then ScopeRespected lib e target scopes.enforced
      else
        match reads.profile with
        | .notFound => ScopeRespected lib e target scopes.enforced
        | .failed _ => ScopeRespected lib e target scopes.enforced
        | .found profile =>
          let checked := reads.enforce lib scopes e target profile
          checked.2 = .ok () → RegistersWithinScope lib scopes checked.1 target profile reads

theorem accepts_registerResolved_iff {compiled : List CompiledResourceRule}
    (hSuspend : target.spec.suspend = false)
    (hRules : compileResourceRules lib target.spec.collectionFilter.resourceRules = .ok compiled)
    (gvr : GroupVersionResource) (u : Unstructured) :
    Accepts lib (registerResolved lib scopes e target profile reads).engine (keyOf target) gvr u ↔
      namespaceMatches lib (reads.cache lib scopes e target) target
          (computedNamespaces lib (reads.cache lib scopes e target) target
            (reads.ceiling scopes target))
          (ceilingRestrictsNamespaces (reads.ceiling scopes target)) (resourceNamespace u) = true ∧
        PassesRules lib (reads.cache lib scopes e target) target profile compiled gvr u := by
  have hAccepts := accepts_registered_iff (e.refreshNamespaceCache reads.resolveListed) profile
      ⟨reads.ceiling scopes target, computedNamespaces lib
          (e.refreshNamespaceCache reads.resolveListed) target (reads.ceiling scopes target)⟩
      reads.registerListed hSuspend hRules gvr u
  rw [resolveEffective_computed] at hAccepts
  exact hAccepts

theorem scopeRespected_registerResolved_iff (hSuspend : target.spec.suspend = false) :
    ScopeRespected lib (registerResolved lib scopes e target profile reads).engine
        target scopes.enforced ↔ RegistersWithinScope lib scopes e target profile
        reads := by
  unfold RegistersWithinScope
  cases hRules : compileResourceRules lib target.spec.collectionFilter.resourceRules with
  | error err =>
    have hKept : (registerResolved lib scopes e target profile reads).engine =
          e.refreshNamespaceCache reads.resolveListed := by
      unfold registerResolved registerTarget
      rw [hSuspend, hRules]
      rfl
    rw [hKept]
  | ok compiled =>
    unfold ScopeRespected
    simp only [accepts_registerResolved_iff lib scopes e target profile reads hSuspend hRules]
    rcases scopeCeilingForTarget_cases scopes
      target.namespace_ reads.ceilingLoad with
      ⟨hLoad, hCeiling⟩ | ⟨hLoad, hCeiling⟩
    · refine iff_of_true ?_ (Or.inl hLoad)
      intro gvr u hAccepts
      unfold TargetReads.ceiling at hAccepts
      rw [hCeiling] at hAccepts
      exact permits_of_namespaceMatches hAccepts.1
    · unfold TargetReads.ceiling
      rw [hCeiling]
      simp only [hLoad, false_or, FilterWithinScope, and_imp]
      refine forall_congr' fun gvr => forall_congr' fun u => ?_
      apply imp_congr_left
      exact namespaceMatches_noCeiling_iff (resourceNamespace_ne_nil u)

/-
  After a pass the engine accepts no object outside the enforced scope exactly when the pass meets
  the condition.
-/
theorem scopeRespected_reconcile_iff (pass : TargetPass) : ScopeRespected lib
        (pass.reconcile lib scopes e target).engine target
        scopes.enforced ↔ pass.WithinScope lib scopes e target := by
  have hGone : ∀ e, ScopeRespected lib (unregisterTarget lib e target.namespace_ target.name)
        target scopes.enforced :=
    fun e => scopeRespected_unregisterTarget lib e target scopes.enforced
  cases pass with
  | stopped err => exact Iff.rfl
  | gone err => exact iff_of_true (hGone e) trivial
  | live reads =>
    simp only [TargetPass.reconcile, reconcileLive, TargetPass.WithinScope]
    cases hSuspend : target.spec.suspend with
    | true => exact iff_of_true (hGone e) (Or.inl rfl)
    | false =>
      simp only [Bool.false_eq_true, if_false, false_or]
      split_ifs with hRef
      · exact Iff.rfl
      · cases reads.profile with
        | notFound | failed => exact Iff.rfl
        | found profile =>
          dsimp only
          cases hChecked : (reads.enforce lib scopes e target profile).2 with
          | error denial => exact iff_of_true (hGone _) (by simp)
          | ok _ =>
            simp only [forall_const]
            exact scopeRespected_registerResolved_iff lib scopes _ target profile reads hSuspend

end Pass

----
-- A Load That Fails After The Checks
----

/- The tenant may collect from its own namespace only. -/
def teamScopes : TenantScopes where
  first := ⟨"team", ["team-a".toList], [], []⟩
  rest := []

/-
  A target whose listed namespace does not exist passes the checks, and then the scope cannot be
  listed.
-/
def lateFailure : TargetPass :=
  .live
    { profile := .found deploymentProfile
      enforceLoad := .success
      checkLoad := .success
      ceilingLoad := .failed "timeout"
      checkListed := some twoNamespaces
      resolveListed := some twoNamespaces
      registerListed := some twoNamespaces }

/- The target then collects from outside the scope. -/
theorem failed_load_opens_scope : ¬ ScopeRespected Libraries.plain
      (lateFailure.reconcile Libraries.plain teamScopes (Engine.fresh ∅)
        (targetIncluding [("team-a-new" : Text)])).engine (targetIncluding [("team-a-new" : Text)])
      teamScopes.enforced := by
  intro hRespected
  have hPermits :=
    hRespected ⟨"apps", "v1", "deployments"⟩ (objectIn "prod") ⟨_, rfl, by decide +kernel⟩
  revert hPermits
  decide

end Controller
end Kollect
