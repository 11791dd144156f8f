import Kollect.Collect.Registry

/-
  The engine registrations of a cluster target (`controller/kollectclustertarget_controller.go`).

  A cluster target is registered as one synthetic target in each of its namespaces, under its own
  name. Synthetic and namespaced targets share the registry, and the cleanup of a cluster target
  finds its registrations by name.

  Key theorems include:
    * `keepsOtherNames_run`
    * `clusterTarget_frame_iff`
-/

namespace Kollect
namespace Controller

open Collect

----
-- Registrations Of A Cluster Target
----

/- `strings.Cut` of a key; a key with no namespace is none. -/
def keyNamespace (key : Text) : Option Text :=
  let ns := key.takeWhile (fun c => c ≠ '/')
  if '/' ∈ key ∧ ns ≠ [] then some ns else none

/- The namespaces a target of the name is registered in. -/
def namespacesForClusterTarget (e : Engine) (targetName : Text) : List Text :=
  Text.sort
    (e.targets.entries.filterMap fun entry =>
      if entry.2.target.name ≠ targetName then none
      else keyNamespace entry.1)

/- The target registered for one namespace. -/
def syntheticTarget (ct : KollectClusterTarget) (ns : Text) : KollectTarget where
  namespace_ := ns
  name := ct.name
  generation := 0
  spec :=
    { profileRef := ct.profileRef
      namespaceSelector := some ⟨AList.singleton labelMetadataName ns, []⟩
      collectionFilter := ct.collectionFilter
      labelSelector := none
      names := []
      suspend := false
      watchMode := [] }

/- The registration of one synthetic target. -/
def syntheticCall (ct : KollectClusterTarget) (profile : KollectProfile)
    (ceiling : ScopeCeiling) (ns : Text) : RegisterCall :=
  ⟨syntheticTarget ct ns, profile, ⟨ceiling, [ns]⟩, none⟩

/-
  Register the namespaces one after another. A set of rules that does not compile, or an informer
  that does not start, ends the loop.
-/
def registerSynthetic (lib : Libraries) (ct : KollectClusterTarget)
    (profile : KollectProfile) (ceiling : ScopeCeiling) (informerStarts : Text → Bool) :
    Engine → List Text → Engine × Bool
  | e, [] => (e, true)
  | e, ns :: rest =>
    match (syntheticCall ct profile ceiling ns).outcome lib e with
    | .invalidRules e _ => (e, false)
    | .suspended e => registerSynthetic lib ct profile ceiling informerStarts e rest
    | .registered e _ _ =>
      if informerStarts ns then registerSynthetic lib ct profile ceiling informerStarts e rest
      else (e, false)

def unregisterEach (lib : Libraries) (name : Text) (e : Engine) (namespaces : List Text) : Engine :=
  namespaces.foldl (fun e ns => unregisterTarget lib e ns name) e

/- Drop the registrations that are not wanted any more. -/
def unregisterUnwanted (lib : Libraries) (ct : KollectClusterTarget)
    (effective : List Text) (e : Engine) : Engine :=
  unregisterEach lib ct.name e
    ((namespacesForClusterTarget e ct.name).filter (fun ns => ns ∉ effective))

/-
  `syncEngineTargets`; `listed` is the namespace list of the API server, without which nothing is
  done.
-/
def syncEngineTargets (lib : Libraries) (e : Engine) (ct : KollectClusterTarget)
    (profile : KollectProfile) (effective : List Text) (ceiling : ScopeCeiling)
    (listed : Option (GoMap Text NamespaceMeta)) (informerStarts : Text → Bool) : Engine :=
  match listed with
  | none => e
  | some _ =>
    match registerSynthetic lib ct profile ceiling informerStarts (e.refreshNamespaceCache listed)
        effective with
    | (e, false) => e
    | (e, true) => unregisterUnwanted lib ct effective e

def unregisterAll (lib : Libraries) (e : Engine) (ct : KollectClusterTarget) : Engine :=
  unregisterEach lib ct.name e (namespacesForClusterTarget e ct.name)

/-
  What one pass of the reconciler does to the engine. A suspended and a deleted cluster target are
  unregistered; a pass that ends with a degraded condition does nothing.
-/
inductive ClusterTargetPass where
  | unregister
  | degraded
  | sync (profile : KollectProfile) (effective : List Text)
      (hNames : ∀ ns ∈ effective, isDnsLabel ns = true) (ceiling : ScopeCeiling)
      (listed : Option (GoMap Text NamespaceMeta)) (informerStarts : Text → Bool)

def ClusterTargetPass.run (lib : Libraries) (ct : KollectClusterTarget)
    (e : Engine) : ClusterTargetPass → Engine
  | unregister => unregisterAll lib e ct
  | degraded => e
  | sync profile effective _ ceiling listed informerStarts =>
    syncEngineTargets lib e ct profile effective ceiling listed informerStarts

----
-- Keys
----

variable {ns name : Text}

theorem targetKey_inj {ns' name' : Text} (hNs : '/' ∉ ns) (hNs' : '/' ∉ ns')
    (hKey : targetKey ns name = targetKey ns' name') : ns = ns' ∧ name = name' := by
  have hCut : ns ++ '/' :: name = ns' ++ '/' :: name' := by simpa [targetKey] using hKey
  exact (Text.append_sep_inj hNs hNs').mp hCut

theorem keyNamespace_targetKey (hLabel : isDnsLabel ns = true) :
    keyNamespace (targetKey ns name) = some ns := by
  have hSlash := slash_notMem_of_isDnsLabel hLabel
  have hFront : (targetKey ns name).takeWhile (fun c => decide (c ≠ '/')) = ns := by
    have hAll : ∀ c ∈ ns, decide (c ≠ '/') = true := by
      intro c hC
      exact decide_eq_true fun hEq => hSlash (hEq ▸ hC)
    rw [targetKey, List.append_assoc, List.takeWhile_append_of_pos hAll]
    simp
  have hMem : '/' ∈ targetKey ns name := by simp [targetKey]
  unfold keyNamespace
  rw [hFront]
  exact if_pos ⟨hMem, (isDnsLabel_mem hLabel).1⟩

variable {key : Text}

theorem slash_notMem_keyNamespace (hCut : keyNamespace key = some ns) : '/' ∉ ns := by
  unfold keyNamespace at hCut
  dsimp only at hCut
  split_ifs at hCut
  rw [← Option.some.inj hCut]
  intro hMem
  have hKept := List.all_eq_true.mp List.all_takeWhile '/' hMem
  exact absurd hKept (by decide)

variable {e : Engine}

theorem mem_namespacesForClusterTarget :
    ns ∈ namespacesForClusterTarget e name ↔ ∃ key st, e.targets.lookup key = some st ∧
        st.target.name = name ∧ keyNamespace key = some ns := by
  unfold namespacesForClusterTarget
  rw [Text.mem_sort, List.mem_filterMap]
  constructor
  · intro hMem
    rcases hMem with ⟨⟨key, st⟩, hEntry, hSome⟩
    split_ifs at hSome with hName
    refine ⟨key, st, AList.mem_lookup_iff.mpr hEntry, ?_, hSome⟩
    exact not_not.mp hName
  · intro hMem
    rcases hMem with ⟨key, st, hLookup, hName, hCut⟩
    refine ⟨⟨key, st⟩, AList.mem_lookup_iff.mp hLookup, ?_⟩
    rw [if_neg (not_not.mpr hName)]
    exact hCut

theorem slash_notMem_namespacesForClusterTarget :
    ∀ ns ∈ namespacesForClusterTarget e name, '/' ∉ ns := by
  intro ns hMem
  rcases mem_namespacesForClusterTarget.mp hMem with ⟨key, st, -, -, hCut⟩
  exact slash_notMem_keyNamespace hCut

----
-- What A Pass Consists Of
----

variable {P : Engine → Prop} {namespaces : List Text}

theorem registerSynthetic_induction (lib : Libraries) (ct : KollectClusterTarget)
    (profile : KollectProfile) (ceiling : ScopeCeiling) (informerStarts : Text → Bool)
    (hStep : ∀ ns ∈ namespaces, ∀ e, P e →
      P ((syntheticCall ct profile ceiling ns).outcome lib e).engine) (hStart : P e) :
    P (registerSynthetic lib ct profile ceiling informerStarts e namespaces).1 := by
  induction namespaces generalizing e with
  | nil => exact hStart
  | cons ns rest ih =>
    rw [List.forall_mem_cons] at hStep
    have hNext := hStep.1 e hStart
    unfold registerSynthetic
    split
    · rename_i hOutcome
      rw [hOutcome] at hNext
      exact hNext
    · rename_i hOutcome
      rw [hOutcome] at hNext
      exact ih hStep.2 hNext
    · rename_i hOutcome
      rw [hOutcome] at hNext
      split_ifs
      · exact ih hStep.2 hNext
      · exact hNext

theorem unregisterEach_induction (lib : Libraries)
    (hStep : ∀ ns e, '/' ∉ ns → P e → P (unregisterTarget lib e ns name))
    (hNames : ∀ ns ∈ namespaces, '/' ∉ ns) (hStart : P e) :
    P (unregisterEach lib name e namespaces) := by
  induction namespaces generalizing e with
  | nil => exact hStart
  | cons ns rest ih =>
    rw [List.forall_mem_cons] at hNames
    exact ih hNames.2 (hStep ns e hNames.1 hStart)

variable (lib : Libraries) (ct : KollectClusterTarget)

include lib ct in
/-
  What the namespace cache, each registration and each unregistration of the name keep is kept by a
  pass.
-/
theorem ClusterTargetPass.run_induction
    (hCache : ∀ e listed, P e → P (e.refreshNamespaceCache listed))
    (hRegister : ∀ profile ceiling ns e, isDnsLabel ns = true → P e →
      P ((syntheticCall ct profile ceiling ns).outcome lib e).engine)
    (hUnregister : ∀ ns e, '/' ∉ ns → P e → P (unregisterTarget lib e ns ct.name))
    (pass : ClusterTargetPass) (hStart : P e) : P (pass.run lib ct e) := by
  cases pass with
  | unregister =>
    exact unregisterEach_induction lib hUnregister slash_notMem_namespacesForClusterTarget hStart
  | degraded => exact hStart
  | sync profile effective hNames ceiling listed starts =>
    cases listed with
    | none => exact hStart
    | some metas =>
      have hLoop := registerSynthetic_induction lib ct profile ceiling starts
        (fun ns hNs e' => hRegister profile ceiling ns e' (hNames ns hNs))
        (hCache e (some metas) hStart)
      unfold run syncEngineTargets
      dsimp only
      split <;> rename_i hRun <;> rw [hRun] at hLoop
      · exact hLoop
      · apply unregisterEach_induction lib hUnregister _ hLoop
        intro ns hMem
        exact slash_notMem_namespacesForClusterTarget ns (List.mem_of_mem_filter hMem)

----
-- Targets Of Other Names
----

/- Registrations and rows under another name are kept. -/
def KeepsOtherNames (name : Text) (e e' : Engine) : Prop :=
  ∀ ns name', '/' ∉ ns → name' ≠ name → e'.targets.lookup (targetKey ns name') =
        e.targets.lookup (targetKey ns name') ∧
      ∀ uid, e'.store.row? ns name' uid = e.store.row? ns name' uid

theorem KeepsOtherNames.refl (name : Text) (e : Engine) : KeepsOtherNames name e e :=
  fun _ _ _ _ => ⟨rfl, fun _ => rfl⟩

theorem KeepsOtherNames.trans {e' e'' : Engine} (hFirst : KeepsOtherNames name e e')
    (hSecond : KeepsOtherNames name e' e'') : KeepsOtherNames name e e'' := by
  intro ns name' hNs hName
  rcases hFirst ns name' hNs hName with ⟨hTarget, hRows⟩
  rcases hSecond ns name' hNs hName with ⟨hTarget', hRows'⟩
  exact ⟨hTarget'.trans hTarget, fun uid => (hRows' uid).trans (hRows uid)⟩

theorem keepsOtherNames_unregisterTarget (lib : Libraries) (e : Engine) (hNs : '/' ∉ ns) :
    KeepsOtherNames name e (unregisterTarget lib e ns name) := by
  intro ns' name' hNs' hName
  constructor
  · rw [lookup_unregisterTarget, if_neg]
    intro hKey
    exact hName (targetKey_inj hNs' hNs hKey).2
  · intro uid
    rw [store_unregisterTarget, Store.row?_removeTarget, if_neg]
    intro hSame
    exact hName hSame.2

theorem keepsOtherNames_outcome (lib : Libraries) (e : Engine) (ct : KollectClusterTarget)
    (profile : KollectProfile) (ceiling : ScopeCeiling) (hNs : '/' ∉ ns) :
    KeepsOtherNames ct.name e ((syntheticCall ct profile ceiling ns).outcome lib e).engine := by
  rcases (syntheticCall ct profile ceiling ns).outcome_cases
    lib e with ⟨-, hGone⟩ | hSame | ⟨st, index, -, hNew⟩
  · rw [hGone]
    exact keepsOtherNames_unregisterTarget lib e hNs
  · rw [hSame]
    exact KeepsOtherNames.refl ct.name e
  · rw [hNew]
    intro ns' name' hNs' hName
    refine ⟨AList.lookup_insert_ne ?_, fun _ => rfl⟩
    intro hKey
    exact hName (targetKey_inj hNs' hNs hKey).2

include lib ct in
/- No pass touches what is registered under another name. -/
theorem keepsOtherNames_run (e : Engine) (pass : ClusterTargetPass) :
    KeepsOtherNames ct.name e (pass.run lib ct e) := by
  apply pass.run_induction lib ct _ _ _ (KeepsOtherNames.refl ct.name e)
  · intro e' listed hSoFar
    exact hSoFar
  · intro profile ceiling ns e' hLabel hSoFar
    exact hSoFar.trans
      (keepsOtherNames_outcome lib e' ct profile ceiling (slash_notMem_of_isDnsLabel hLabel))
  · intro ns e' hNs hSoFar
    exact hSoFar.trans (keepsOtherNames_unregisterTarget lib e' hNs)

----
-- The Registry
----

/- Every target is in a namespace with a valid name. -/
def Labelled (e : Engine) : Prop :=
  ∀ key st, e.targets.lookup key = some st → isDnsLabel st.target.namespace_ = true

/- An engine whose registrations are those of API objects. -/
structure Registry where
  engine : Engine
  keyed : Keyed engine
  labelled : Labelled engine

theorem labelled_unregisterTarget (lib : Libraries) (hLabelled : Labelled e) (ns name : Text) :
    Labelled (unregisterTarget lib e ns name) := by
  intro key st hLookup
  rw [lookup_unregisterTarget] at hLookup
  split_ifs at hLookup
  exact hLabelled key st hLookup

theorem labelled_outcome (lib : Libraries) (hLabelled : Labelled e) (call : RegisterCall)
    (hLabel : isDnsLabel call.target.namespace_ = true) : Labelled (call.outcome lib e).engine := by
  rcases call.outcome_cases lib e with ⟨-, hGone⟩ | hSame | ⟨st', index, hTarget, hNew⟩
  · rw [hGone]
    exact labelled_unregisterTarget lib hLabelled _ _
  · rw [hSame]
    exact hLabelled
  · rw [hNew]
    intro key st hLookup
    rw [GoMap.lookup_insert_ite] at hLookup
    split_ifs at hLookup with hKey
    · rw [← Option.some.inj hLookup, hTarget]
      exact hLabel
    · exact hLabelled key st hLookup

include lib ct in
theorem keyed_run (hKeyed : Keyed e) (pass : ClusterTargetPass) : Keyed (pass.run lib ct e) := by
  apply pass.run_induction lib ct _ _ _ hKeyed
  · intro e' listed hSoFar
    exact hSoFar
  · intro profile ceiling ns e' _ hSoFar
    exact RegisterCall.keyed_outcome lib e' _ hSoFar
  · intro ns e' _ hSoFar
    exact keyed_unregisterTarget lib hSoFar ns ct.name

include lib ct in
/- A pass registers in namespaces with valid names only. -/
theorem labelled_run (hLabelled : Labelled e) (pass : ClusterTargetPass) :
    Labelled (pass.run lib ct e) := by
  apply pass.run_induction lib ct _ _ _ hLabelled
  · intro e' listed hSoFar
    exact hSoFar
  · intro profile ceiling ns e' hLabel hSoFar
    exact labelled_outcome lib hSoFar _ hLabel
  · intro ns e' _ hSoFar
    exact labelled_unregisterTarget lib hSoFar ns ct.name

def Registry.run (lib : Libraries) (ct : KollectClusterTarget) (r : Registry)
    (pass : ClusterTargetPass) : Registry where
  engine := pass.run lib ct r.engine
  keyed := keyed_run lib ct r.keyed pass
  labelled := labelled_run lib ct r.labelled pass

theorem lookup_unregisterEach (lib : Libraries) (name : Text) (key : Text)
    (namespaces : List Text) (e : Engine)
    (hKey : e.targets.lookup key = none ∨ ∃ ns ∈ namespaces, key = targetKey ns name) :
    (unregisterEach lib name e namespaces).targets.lookup key = none := by
  induction namespaces generalizing e with
  | nil =>
    rcases hKey with hNone | ⟨ns, hMem, -⟩
    · exact hNone
    · exact absurd hMem List.not_mem_nil
  | cons first rest ih =>
    apply ih
    rw [lookup_unregisterTarget]
    rcases hKey with hNone | ⟨ns, hMem, hEq⟩
    · left
      split_ifs
      · rfl
      · exact hNone
    · rcases List.mem_cons.mp hMem with hFirst | hRest
      · left
        rw [if_pos (hFirst ▸ hEq)]
      · exact Or.inr ⟨ns, hRest, hEq⟩

include lib ct in
theorem Registry.lookup_unregisterAll (r : Registry) {st : TargetState}
    (hLookup : r.engine.targets.lookup key = some st) (hName : st.target.name = ct.name) :
    (unregisterAll lib r.engine ct).targets.lookup key = none := by
  have hKey := r.keyed key st hLookup
  have hLabel := r.labelled key st hLookup
  apply lookup_unregisterEach
  right
  refine ⟨st.target.namespace_, ?_, ?_⟩
  · apply mem_namespacesForClusterTarget.mpr
    refine ⟨key, st, hLookup, hName, ?_⟩
    rw [hKey]
    exact keyNamespace_targetKey hLabel
  · rw [hKey, keyOf, hName]

----
-- The Targets Of Others
----

/-
  Every target that the cluster target did not register, that is every one outside the namespaces
  `own` of its synthetic registrations, keeps its registered state and its rows.
-/
def LeavesOthers (own : List Text) (ct : KollectClusterTarget) (e e' : Engine) : Prop :=
  ∀ key st, e.targets.lookup key = some st →
    ¬ (st.target.name = ct.name ∧ st.target.namespace_ ∈ own) → e'.targets.lookup key = some st ∧
      ∀ uid, e'.store.row? st.target.namespace_ st.target.name uid =
          e.store.row? st.target.namespace_ st.target.name uid

/- No target of another owner has the cluster target's name. -/
def NoNamesake (own : List Text) (ct : KollectClusterTarget) (e : Engine) : Prop :=
  ∀ key st, e.targets.lookup key = some st → st.target.name = ct.name → st.target.namespace_ ∈ own

/-
  The passes of a cluster target leave the targets of others alone exactly when none of them has its
  name.
-/
theorem clusterTarget_frame_iff (lib : Libraries) (ct : KollectClusterTarget)
    (own : List Text) (r : Registry) :
    (∀ pass : ClusterTargetPass, LeavesOthers own ct r.engine (r.run lib ct pass).engine) ↔
      NoNamesake own ct r.engine := by
  constructor
  · intro hFrame key st hLookup hName
    by_contra hOwn
    have hKept := (hFrame .unregister key st hLookup (fun hBoth => hOwn hBoth.2)).1
    have hGone := r.lookup_unregisterAll lib ct hLookup hName
    exact Option.some_ne_none st (hKept.symm.trans hGone)
  · intro hNone pass key st hLookup hOther
    have hKey := r.keyed key st hLookup
    have hLabel := r.labelled key st hLookup
    have hName : st.target.name ≠ ct.name := by
      intro hEq
      exact hOther ⟨hEq, hNone key st hLookup hEq⟩
    rcases keepsOtherNames_run lib ct r.engine pass
      st.target.namespace_ st.target.name
      (slash_notMem_of_isDnsLabel hLabel) hName with
      ⟨hTarget, hRows⟩
    refine ⟨?_, hRows⟩
    rw [hKey] at hLookup ⊢
    exact hTarget.trans hLookup

def teamRow : Item :=
  ⟨"team-a", "deployments", "team-a", "app", "apps", "v1", "Deployment", "uid-1", ∅⟩

/- An engine with a target of a team and one row of it. -/
def teamEngine : Engine :=
  { (registerTarget Libraries.plain
      (Engine.fresh twoNamespaces)
      (targetIncluding [("team-a" : Text)])
      deploymentProfile noOptions none).engine with
    store := Store.empty.upsert teamRow }

theorem teamEngine_lookup {st : TargetState} (hLookup : teamEngine.targets.lookup key = some st) :
    key = keyOf st.target ∧ st.target = targetIncluding [("team-a" : Text)] := by
  change AList.lookup key (AList.insert (keyOf (targetIncluding [("team-a" : Text)])) _ ∅) = _
    at hLookup
  rw [GoMap.lookup_insert_ite] at hLookup
  split_ifs at hLookup with hKey
  · rw [← Option.some.inj hLookup]
    exact ⟨hKey, rfl⟩
  · exact absurd hLookup (Option.some_ne_none st).symm

def teamRegistry : Registry where
  engine := teamEngine
  keyed _ _ hLookup := (teamEngine_lookup hLookup).1
  labelled _ _ hLookup := by
    rw [(teamEngine_lookup hLookup).2]
    decide

/- A cluster target that has the name of the team's target. -/
def platformTarget : KollectClusterTarget where
  name := "deployments"
  profileRef := "deployments"
  namespaceSelector := none
  collectionFilter := ⟨[], [], none, []⟩

/- The registry after the deletion of the cluster target. -/
def afterDeletion : Registry := teamRegistry.run Libraries.plain platformTarget .unregister

/- The cluster target registered nothing. Its deletion drops the target of the team and its rows. -/
theorem deletion_unregisters_team_target :
    let key := targetKey "team-a" "deployments"
    (teamRegistry.engine.targets.lookup key).isSome = true ∧
      afterDeletion.engine.targets.lookup key = none ∧
      teamRegistry.engine.store.row? "team-a" "deployments" "uid-1" = some teamRow ∧
      afterDeletion.engine.store.row? "team-a" "deployments" "uid-1" = none ∧
      ¬ LeavesOthers [] platformTarget teamRegistry.engine afterDeletion.engine := by
  intro key
  have hBefore : (teamRegistry.engine.targets.lookup key).isSome = true := by decide +kernel
  have hGone : afterDeletion.engine.targets.lookup key = none := by decide +kernel
  refine ⟨hBefore, hGone, rfl, rfl, ?_⟩
  intro hFrame
  rcases Option.isSome_iff_exists.mp hBefore with ⟨st, hSome⟩
  have hKept := (hFrame key st hSome (fun hBoth => absurd hBoth.2 List.not_mem_nil)).1
  exact Option.some_ne_none st (hKept.symm.trans hGone)

end Controller
end Kollect
