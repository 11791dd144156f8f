import Kollect.Collect.Filter
import Kollect.Collect.Store

/-
  The collection engine's registry: which targets are registered, under which state, and which
  namespaces each of them accepts objects from (`internal/collect/engine.go`).

  The functions here are the sections the engine runs under its lock `e.mu`; informer start-up and
  dispatch build on them in later modules.

  The accept decision is settled by `filterRespected_registerTarget_iff`.
-/

----
-- Registry State
----

namespace Kollect

namespace Collect

/-
  The fields whose sha256 digest the engine stores: two registrations have one digest when they have
  one record.
-/
structure TargetFingerprint where
  effective : List Text
  targetGeneration : Int
  profileGeneration : Int
  resourceRules : List ResourceRule
  profileSpec : KollectProfileSpec
deriving DecidableEq

/- What the engine keeps of a registered target. -/
structure TargetState where
  target : KollectTarget
  profile : KollectProfile
  effectiveNamespaces : List Text
  scopeEnforced : Bool
  compiledRules : List CompiledResourceRule
  fingerprint : TargetFingerprint
deriving DecidableEq

/- The resources of a target that fail extraction. -/
structure ExtractFailureState where
  resources : List Text
  lastErr : Text
deriving DecidableEq

/- The engine's maps that registration reads and writes. -/
structure Engine where
  targets : GoMap Text TargetState
  targetsByGVR : GoMap GroupVersionResource (List Text)
  nsMeta : GoMap Text NamespaceMeta
  defaults : NamespaceDefaults
  forbidden : GoMap Text Unit
  accessErr : GoMap Text Unit
  extractErr : GoMap Text ExtractFailureState
  store : Store

def targetKey (namespace_ name : Text) : Text := namespace_ ++ "/" ++ name

def keyOf (target : KollectTarget) : Text := targetKey target.namespace_ target.name

/- The caller's resolved ceiling and namespace set. -/
structure RegisterTargetOptions where
  scopeCeiling : ScopeCeiling
  effectiveNamespaces : List Text

def targetStateFingerprint (target : KollectTarget) (profile : KollectProfile)
    (effective : List Text) : TargetFingerprint where
  effective := Text.sortUnique effective
  targetGeneration := target.generation
  profileGeneration := profile.generation
  resourceRules := target.spec.collectionFilter.resourceRules
  profileSpec := profile.spec

----
-- The Index By Resource
----

namespace Engine

/- The keys indexed under a resource. -/
def keysFor (e : Engine) (gvr : GroupVersionResource) : List Text :=
  (e.targetsByGVR.lookup gvr).getD []

variable (e : Engine) (key : Text) (gvr : GroupVersionResource)

def indexTargetLocked : Engine :=
  if key ∈ e.keysFor gvr then e
  else { e with targetsByGVR := e.targetsByGVR.insert gvr (e.keysFor gvr ++ [key]) }

/- Only the first occurrence is removed. -/
def unindexTargetLocked : Engine :=
  if key ∈ e.keysFor gvr then
    { e with targetsByGVR := e.targetsByGVR.insert gvr ((e.keysFor gvr).erase key) }
  else e

/- Remove the index entry of the state under `key`, if any. -/
def unindexRegistered (lib : Libraries) (e : Engine) (key : Text) : Engine :=
  match e.targets.lookup key with
  | none => e
  | some st => e.unindexTargetLocked key (gvrFromProfile lib st.profile.spec.targetGVK)

/- The namespace list replaces the cache when it was read. -/
def refreshNamespaceCache (e : Engine) (listed : Option (GoMap Text NamespaceMeta)) : Engine :=
  { e with nsMeta := listed.getD e.nsMeta }

/- The cached metadata, or none of it. -/
def namespaceMetaFor (e : Engine) (name : Text) : NamespaceMeta :=
  (e.nsMeta.lookup name).getD NamespaceMeta.empty

theorem indexTargetLocked_eq :
    ∃ index, e.indexTargetLocked key gvr = { e with targetsByGVR := index } := by
  unfold indexTargetLocked
  split_ifs
  · exact ⟨e.targetsByGVR, rfl⟩
  · exact ⟨_, rfl⟩

theorem unindexRegistered_eq (lib : Libraries) (e : Engine) (key : Text) :
    ∃ index, e.unindexRegistered lib key = { e with targetsByGVR := index } := by
  unfold unindexRegistered unindexTargetLocked
  split
  · exact ⟨e.targetsByGVR, rfl⟩
  · split_ifs
    · exact ⟨_, rfl⟩
    · exact ⟨e.targetsByGVR, rfl⟩

end Engine

----
-- Registration
----

variable (lib : Libraries) (e : Engine)

/- The section of `UnregisterTarget` under the lock. -/
def unregisterLocked (key : Text) : Engine :=
  let e := e.unindexRegistered lib key
  { e with
    targets := e.targets.erase key
    forbidden := e.forbidden.erase key
    accessErr := e.accessErr.erase key
    extractErr := e.extractErr.erase key }

/- Drop a target's registration, then its rows. -/
def unregisterTarget (namespace_ name : Text) : Engine :=
  let e := unregisterLocked lib e (targetKey namespace_ name)
  { e with store := e.store.removeTarget namespace_ name }

/-
  The namespace set of a registration: the caller's, or the one recomputed from the refreshed
  namespace cache.
-/
def resolveEffective (target : KollectTarget) (opts : RegisterTargetOptions) : List Text :=
  if opts.effectiveNamespaces.isEmpty then
    effectiveNamespaces (matchIntentNamespaces lib target.spec.collectionFilter
        target.spec.namespaceSelector e.nsMeta e.defaults)
      opts.scopeCeiling target.spec.collectionFilter e.defaults
  else opts.effectiveNamespaces

def newTargetState (target : KollectTarget) (profile : KollectProfile)
    (opts : RegisterTargetOptions) (compiled : List CompiledResourceRule)
    (effective : List Text) : TargetState where
  target := target
  profile := profile
  effectiveNamespaces := effective
  scopeEnforced := ceilingRestrictsNamespaces opts.scopeCeiling
  compiledRules := compiled
  fingerprint := targetStateFingerprint target profile effective

/- The section of `RegisterTarget` under the lock. -/
def registerLocked (key : Text) (st : TargetState) : Engine :=
  let e := e.unindexRegistered lib key
  let e := { e with targets := e.targets.insert key st }
  e.indexTargetLocked key (gvrFromProfile lib st.profile.spec.targetGVK)

/-
  How `registerTarget` leaves the registry: the target is suspended, its rules do not compile, or
  its informer is to be started, with a backfill when its state changed.
-/
inductive RegisterOutcome where
  | suspended (e : Engine)
  | invalidRules (e : Engine) (err : Text)
  | registered (e : Engine) (gvr : GroupVersionResource) (needsBackfill : Bool)

def RegisterOutcome.engine : RegisterOutcome → Engine
  | .suspended e => e
  | .invalidRules e _ => e
  | .registered e _ _ => e

/-
  The namespace cache a registration reads: the caller that resolved no set makes the engine list
  the namespaces.
-/
def registrationCache (e : Engine) (opts : RegisterTargetOptions)
    (listed : Option (GoMap Text NamespaceMeta)) : Engine :=
  if opts.effectiveNamespaces.isEmpty then e.refreshNamespaceCache listed
  else e

/-
  `RegisterTarget` up to the call of `startInformer`. `listed` is the namespace list the API server
  returns, if it returns one.
-/
def registerTarget (target : KollectTarget)
    (profile : KollectProfile) (opts : RegisterTargetOptions)
    (listed : Option (GoMap Text NamespaceMeta)) : RegisterOutcome :=
  if target.spec.suspend then .suspended (unregisterTarget lib e target.namespace_ target.name)
  else
    match compileResourceRules lib target.spec.collectionFilter.resourceRules with
    | .error err => .invalidRules e ("compile resourceRules: " ++ err)
    | .ok compiled =>
      let e := registrationCache e opts listed
      let st := newTargetState target profile opts compiled (resolveEffective lib e target opts)
      let old := e.targets.lookup (keyOf target)
      .registered (registerLocked lib e (keyOf target) st)
        (gvrFromProfile lib profile.spec.targetGVK)
        (old.map TargetState.fingerprint ≠ some st.fingerprint)

----
-- Matching Objects
----

/- The namespace a selector pins by its metadata name. -/
def pinnedNamespace (selector : Option LabelSelector) : Option Text :=
  selector.bind (fun sel => sel.matchLabels.lookup labelMetadataName)

/-
  Whether objects of a namespace are considered. An empty effective set falls back to the selector
  alone, unless a ceiling was supplied.
-/
def namespaceMatches (target : KollectTarget)
    (effective : List Text) (scopeEnforced : Bool) (ns : Text) : Bool :=
  if !effective.isEmpty then decide (ns ∈ effective)
  else if scopeEnforced then false
  else
    match pinnedNamespace target.spec.namespaceSelector with
    | some name => ns == name
    | none =>
      match e.nsMeta.lookup ns with
      | none => false
      | some nsInfo => namespaceMatchesSelector lib target.spec.namespaceSelector nsInfo.labels

/- Why an object was accepted or dropped for a target. -/
inductive TargetMatch where
  | accepted
  | namespaceMismatch
  | filtered
deriving DecidableEq

def matchesTarget (st : TargetState)
    (gvr : GroupVersionResource) (u : Unstructured) : TargetMatch :=
  if !namespaceMatches lib e st.target st.effectiveNamespaces st.scopeEnforced
      (resourceNamespace u) then
    .namespaceMismatch
  else if !resourceMatchesRules lib u gvr st.target st.profile st.compiledRules e.nsMeta then
    .filtered
  else if !shouldCollect u.labels (e.namespaceMetaFor (resourceNamespace u))
      st.target then
    .filtered
  else .accepted

/- The namespace check of the state registered under `key`. -/
def acceptsNamespaceOf (key : Text) (u : Unstructured) : Bool :=
  match e.targets.lookup key with
  | none => false
  | some st =>
    namespaceMatches lib e st.target st.effectiveNamespaces st.scopeEnforced (resourceNamespace u)

----
-- What A Registration Records
----

section Registration

variable (lib : Libraries) (e : Engine) (target : KollectTarget) (profile : KollectProfile)
variable (opts : RegisterTargetOptions) (listed : Option (GoMap Text NamespaceMeta))

/- The lock section sets one registration and the index. -/
theorem registerLocked_eq (key : Text) (st : TargetState) :
    ∃ index,
      registerLocked lib e key st =
        { e with
          targets := e.targets.insert key st
          targetsByGVR := index } := by
  rcases e.unindexRegistered_eq lib key with ⟨before, hBefore⟩
  unfold registerLocked
  rw [hBefore]
  exact Engine.indexTargetLocked_eq _ key _

theorem registerTarget_suspended (hSuspend : target.spec.suspend = true) :
    (registerTarget lib e target profile opts listed).engine.targets.lookup (keyOf target) =
      none := by
  unfold registerTarget
  rw [if_pos hSuspend]
  exact AList.lookup_erase _ _

variable {compiled : List CompiledResourceRule}

theorem registerTarget_registered (hSuspend : target.spec.suspend = false)
    (hRules : compileResourceRules lib target.spec.collectionFilter.resourceRules = .ok compiled) :
    ∃ index, (registerTarget lib e target profile opts listed).engine =
        { registrationCache e opts listed with
          targets := (registrationCache e opts listed).targets.insert (keyOf target)
              (newTargetState target profile opts compiled
                (resolveEffective lib (registrationCache e opts listed) target opts))
          targetsByGVR := index } := by
  unfold registerTarget
  simp only [hSuspend, Bool.false_eq_true, if_false, hRules]
  exact registerLocked_eq lib _ _ _

end Registration

----
-- Accepted Namespaces Pass The Filter
----

/-
  Every object the engine accepts for the target by its namespace lies in a namespace that passes
  the filter.
-/
def FilterRespected (lib : Libraries) (e : Engine) (target : KollectTarget)
    (ceiling : ScopeCeiling) : Prop :=
  ∀ u, acceptsNamespaceOf lib e (keyOf target) u = true →
    PassesFilter lib target.spec.collectionFilter target.spec.namespaceSelector e.defaults ceiling
      (resourceNamespace u) (e.namespaceMetaFor (resourceNamespace u)).labels

/- Some existing namespace passes the whole filter. -/
def SomeNamespacePasses (lib : Libraries) (nsMeta : GoMap Text NamespaceMeta)
    (defaults : NamespaceDefaults) (target : KollectTarget) (ceiling : ScopeCeiling) : Prop :=
  ∃ ns, ns ≠ [] ∧ ∃ nsInfo, nsMeta.lookup ns = some nsInfo ∧
      PassesFilter lib target.spec.collectionFilter
        target.spec.namespaceSelector defaults ceiling ns nsInfo.labels

/-
  The selector alone admits nothing the other filter fields reject: it pins a namespace that passes
  them, or it selects no existing namespace.
-/
def SelectorAdmitsNothingElse (lib : Libraries) (nsMeta : GoMap Text NamespaceMeta)
    (defaults : NamespaceDefaults) (target : KollectTarget) : Prop :=
  match pinnedNamespace target.spec.namespaceSelector with
  | some name =>
    name ≠ [] → PassesIntent lib target.spec.collectionFilter
        target.spec.namespaceSelector defaults name
        ((nsMeta.lookup name).getD NamespaceMeta.empty).labels
  | none =>
    ∀ ns nsInfo, ns ≠ [] → nsMeta.lookup ns = some nsInfo →
      namespaceMatchesSelector lib target.spec.namespaceSelector nsInfo.labels = false

theorem resourceNamespace_ne_nil (u : Unstructured) : resourceNamespace u ≠ [] := by
  unfold resourceNamespace
  split_ifs with hNs
  · decide
  · exact hNs

theorem exists_resourceNamespace {ns : Text} (hNonempty : ns ≠ []) :
    ∃ u, resourceNamespace u = ns := by
  refine ⟨⟨ns, [], [], ∅, []⟩, ?_⟩
  simp [resourceNamespace, hNonempty]

theorem passesFilter_of_unrestricted {lib : Libraries} {filter : CollectionFilterSpec}
    {selector : Option LabelSelector} {defaults : NamespaceDefaults} {ceiling : ScopeCeiling}
    {ns : Text} {nsLabels : Labels} (hCeiling : ceilingRestrictsNamespaces ceiling = false)
    (hIntent : PassesIntent lib filter selector defaults ns nsLabels) :
    PassesFilter lib filter selector defaults ceiling ns nsLabels := by
  simp only [ceilingRestrictsNamespaces, Bool.or_eq_false_iff,
    Bool.not_eq_false', List.isEmpty_iff] at hCeiling
  refine ⟨hIntent, ?_, ?_⟩
  · intro hAllowed
    exact absurd hCeiling.1 hAllowed
  · rw [hCeiling.2]
    exact List.not_mem_nil

section Fallback

variable {lib : Libraries} {e : Engine} {target : KollectTarget} {effective : List Text}

variable {ns : Text}

/- A non-empty set decides alone. -/
theorem namespaceMatches_of_nonempty {scopeEnforced : Bool} (hEffective : effective ≠ []) :
    namespaceMatches lib e target effective scopeEnforced ns = true ↔ ns ∈ effective := by
  simp [namespaceMatches, hEffective]

/- An empty set under a ceiling accepts nothing. -/
theorem namespaceMatches_enforced : namespaceMatches lib e target [] true ns = false := by
  simp [namespaceMatches]

/- An empty set without a ceiling leaves the selector. -/
theorem namespaceMatches_fallback_iff : namespaceMatches lib e target [] false ns = true ↔
      match pinnedNamespace target.spec.namespaceSelector with
      | some name => ns = name
      | none =>
        ∃ nsInfo, e.nsMeta.lookup ns = some nsInfo ∧
          namespaceMatchesSelector lib target.spec.namespaceSelector nsInfo.labels = true := by
  unfold namespaceMatches
  cases pinnedNamespace target.spec.namespaceSelector with
  | some name => simp
  | none =>
    cases e.nsMeta.lookup ns with
    | none => simp
    | some nsInfo => simp

end Fallback

section Settled

variable {lib : Libraries} {e : Engine} {target : KollectTarget} {profile : KollectProfile}
variable {opts : RegisterTargetOptions} {listed : Option (GoMap Text NamespaceMeta)}
variable {compiled : List CompiledResourceRule}

/-
  A fresh registration, by the cache it has read: the objects accepted are those the recorded set
  accepts.
-/
theorem acceptsNamespaceOf_registered (hSuspend : target.spec.suspend = false)
    (hRules : compileResourceRules lib target.spec.collectionFilter.resourceRules = .ok compiled)
    (u : Unstructured) : acceptsNamespaceOf lib
        (registerTarget lib e target profile opts listed).engine (keyOf target) u =
      namespaceMatches lib (registrationCache e opts listed) target
        (resolveEffective lib (registrationCache e opts listed) target opts)
        (ceilingRestrictsNamespaces opts.scopeCeiling) (resourceNamespace u) := by
  rcases registerTarget_registered lib e target profile opts
    listed hSuspend hRules with ⟨index, hEngine⟩
  rw [hEngine]
  unfold acceptsNamespaceOf
  rw [AList.lookup_insert]
  rfl

/- The recomputed set is empty when no namespace passes. -/
theorem resolveEffective_eq_nil_iff (hOpts : opts.effectiveNamespaces = []) :
    resolveEffective lib e target opts = [] ↔
      ¬ SomeNamespacePasses lib e.nsMeta e.defaults target opts.scopeCeiling := by
  unfold resolveEffective
  rw [hOpts, List.eq_nil_iff_forall_not_mem]
  simp only [List.isEmpty_nil, if_true, mem_effectiveNamespaces_iff, SomeNamespacePasses,
    not_exists]

theorem mem_resolveEffective_iff (hOpts : opts.effectiveNamespaces = []) {ns : Text} :
    ns ∈ resolveEffective lib e target opts ↔ ns ≠ [] ∧ ∃ nsInfo, e.nsMeta.lookup ns = some nsInfo ∧
          PassesFilter lib target.spec.collectionFilter target.spec.namespaceSelector e.defaults
            opts.scopeCeiling ns nsInfo.labels := by
  unfold resolveEffective
  rw [hOpts]
  exact mem_effectiveNamespaces_iff

/-
  With an empty set and no ceiling, the filter is respected when the selector alone admits nothing
  else.
-/
theorem fallback_respects_iff (hCeiling : ceilingRestrictsNamespaces opts.scopeCeiling = false)
    (hNone : ¬ SomeNamespacePasses lib e.nsMeta e.defaults target opts.scopeCeiling) :
    (∀ u : Unstructured, namespaceMatches lib e target [] false (resourceNamespace u) = true →
          PassesFilter lib target.spec.collectionFilter target.spec.namespaceSelector e.defaults
            opts.scopeCeiling (resourceNamespace u)
            (e.namespaceMetaFor (resourceNamespace u)).labels) ↔
      SelectorAdmitsNothingElse lib e.nsMeta e.defaults
        target := by
  simp only [namespaceMatches_fallback_iff]
  unfold SelectorAdmitsNothingElse
  cases pinnedNamespace target.spec.namespaceSelector with
  | some name =>
    constructor
    · intro hRespect hName
      rcases exists_resourceNamespace hName with ⟨u, hU⟩
      have hPass := (hRespect u hU).toPassesIntent
      rw [hU] at hPass
      exact hPass
    · intro hPinned u hU
      have hName : name ≠ [] := hU ▸ resourceNamespace_ne_nil u
      rw [hU]
      exact passesFilter_of_unrestricted hCeiling (hPinned hName)
  | none =>
    constructor
    · intro hRespect ns nsInfo hNs hLookup
      rcases exists_resourceNamespace hNs with ⟨u, rfl⟩
      rw [Bool.eq_false_iff]
      intro hSelected
      -- an accepted cached namespace would fill the set
      have hPass := hRespect u ⟨nsInfo, hLookup, hSelected⟩
      simp only [Engine.namespaceMetaFor, hLookup, Option.getD_some] at hPass
      exact hNone ⟨_, hNs, nsInfo, hLookup, hPass⟩
    · rintro hSelector u ⟨nsInfo, hLookup, hSelected⟩
      have hNot := hSelector _ nsInfo (resourceNamespace_ne_nil u) hLookup
      rw [hNot] at hSelected
      exact absurd hSelected Bool.false_ne_true

/-
  After a registration that recomputes the set, the engine accepts only namespaces that pass the
  filter exactly when the target is suspended, a ceiling is supplied, some existing namespace passes
  the filter, or the selector alone admits nothing the other fields reject.
-/
theorem filterRespected_registerTarget_iff
    (hRules : compileResourceRules lib target.spec.collectionFilter.resourceRules = .ok compiled)
    (hOpts : opts.effectiveNamespaces = []) : FilterRespected lib
        (registerTarget lib e target profile opts listed).engine target opts.scopeCeiling ↔
      target.spec.suspend = true ∨ ceilingRestrictsNamespaces opts.scopeCeiling = true ∨
        SomeNamespacePasses lib (listed.getD e.nsMeta) e.defaults target opts.scopeCeiling ∨
        SelectorAdmitsNothingElse lib (listed.getD e.nsMeta)
          e.defaults target := by
  cases hSuspend : target.spec.suspend with
  | true =>
    have hGone := registerTarget_suspended lib e target profile opts listed hSuspend
    simp [FilterRespected, acceptsNamespaceOf, hGone]
  | false =>
    have hCache : registrationCache e opts listed = e.refreshNamespaceCache listed := by
      simp [registrationCache, hOpts]
    rcases registerTarget_registered lib e target profile
      opts listed hSuspend hRules with ⟨index, hEngine⟩
    unfold FilterRespected
    simp only [acceptsNamespaceOf_registered hSuspend hRules, Bool.false_eq_true, false_or]
    rw [hEngine, hCache]
    generalize hE : e.refreshNamespaceCache listed = e'
    have hMeta : listed.getD e.nsMeta = e'.nsMeta := by
      rw [← hE]
      rfl
    have hDefaults : e.defaults = e'.defaults := by
      rw [← hE]
      rfl
    rw [hMeta, hDefaults]
    by_cases hSome : SomeNamespacePasses lib e'.nsMeta e'.defaults target opts.scopeCeiling
    · have hNonempty := (resolveEffective_eq_nil_iff hOpts).not.mpr (not_not_intro hSome)
      refine iff_of_true ?_ (Or.inr (Or.inl hSome))
      intro u hAccept
      rw [namespaceMatches_of_nonempty hNonempty, mem_resolveEffective_iff hOpts] at hAccept
      rcases hAccept with ⟨_, nsInfo, hLookup, hPass⟩
      simpa [Engine.namespaceMetaFor, hLookup] using hPass
    · rw [(resolveEffective_eq_nil_iff hOpts).mpr hSome]
      cases hCeiling : ceilingRestrictsNamespaces opts.scopeCeiling with
      | true => simp [namespaceMatches_enforced]
      | false =>
        simp only [Bool.false_eq_true, false_or, hSome]
        exact fallback_respects_iff hCeiling hSome

end Settled

----
-- A Target Whose Only Listed Namespace Is Missing
----

def Engine.fresh (nsMeta : GoMap Text NamespaceMeta) : Engine where
  targets := ∅
  targetsByGVR := ∅
  nsMeta := nsMeta
  defaults := ⟨[], []⟩
  forbidden := ∅
  accessErr := ∅
  extractErr := ∅
  store := Store.empty

def twoNamespaces : GoMap Text NamespaceMeta :=
  GoMap.ofList [("team-a", NamespaceMeta.empty), ("prod", NamespaceMeta.empty)]

/- A target that lists the given namespaces and no more. -/
def targetIncluding (included : List Text) : KollectTarget where
  namespace_ := "team-a"
  name := "deployments"
  generation := 1
  spec :=
    { profileRef := "deployments"
      namespaceSelector := none
      collectionFilter :=
        { includedNamespaces := included
          excludedNamespaces := []
          namespaceExcludeSelector := none
          resourceRules := [] }
      labelSelector := none
      names := []
      suspend := false
      watchMode := [] }

def deploymentProfile : KollectProfile where
  name := "deployments"
  generation := 1
  annotations := ∅
  spec := ⟨⟨"apps", "v1", "Deployment"⟩, []⟩

def noOptions : RegisterTargetOptions := ⟨⟨[], []⟩, []⟩

def objectIn (ns : Text) : Unstructured := ⟨ns, "app", "uid-1", ∅, []⟩

/- The only listed namespace does not exist, and the target collects every existing one. -/
theorem missing_included_namespace_accepts_all : ¬ FilterRespected Libraries.plain
      (registerTarget Libraries.plain (Engine.fresh twoNamespaces)
        (targetIncluding [("team-a-new" : Text)]) deploymentProfile noOptions none).engine
      (targetIncluding [("team-a-new" : Text)])
      noOptions.scopeCeiling := by
  intro hRespect
  have hPass := hRespect (objectIn "prod") (by decide)
  exact absurd (hPass.included (by decide)) (by decide)

/- With the listed namespace present the filter holds. -/
theorem existing_included_namespace_respected : compileResourceRules Libraries.plain [] = .ok [] ∧
      FilterRespected Libraries.plain
        (registerTarget Libraries.plain (Engine.fresh twoNamespaces)
          (targetIncluding [("team-a" : Text)]) deploymentProfile noOptions none).engine
        (targetIncluding [("team-a" : Text)])
        noOptions.scopeCeiling := by
  refine ⟨rfl, ?_⟩
  refine
    (filterRespected_registerTarget_iff (show compileResourceRules _ _ = .ok [] from rfl)
      rfl).mpr (Or.inr (Or.inr (Or.inl ?_)))
  refine ⟨"team-a", by decide, NamespaceMeta.empty, rfl, ?_⟩
  refine ⟨⟨?_, rfl, by decide, ?_⟩, ?_, by decide⟩
  · intro _
    decide
  · intro sel hSel
    cases hSel
  · intro hAllowed
    exact absurd rfl hAllowed

end Collect

end Kollect
