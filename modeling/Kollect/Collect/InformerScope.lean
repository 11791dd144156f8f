import Kollect.Collect.Registry

/-
  What the informers of the engine cover. Targets of one resource share an informer, whose scope is
  agreed between them each time one of them is registered (`watchNamespaceForGVR` of
  `namespace_scope.go`).

  The calls are those of `InformerState`, and the namespace cache may be replaced at any point
  between their steps. A step may thus have read any cache.

  Key theorems include:
    * `scopeInvariant_step`
    * `informers_cover_iff`
-/

namespace Kollect

namespace Collect

----
-- Runs
----

/- A step of a call, or a new namespace cache. -/
inductive ScopeLabel (ι : Type) where
  | call (a : InformerLabel ι)
  | refresh (listed : GoMap Text NamespaceMeta)

section Runs

variable {ι : Type} [DecidableEq ι]

/- Every cache syncs. -/
def scopeStep (lib : Libraries) (calls : ι → RegisterCall)
    (s : InformerState ι) : ScopeLabel ι → InformerState ι
  | .call a => s.step lib (fun _ => true) calls a
  | .refresh listed => { s with engine := s.engine.refreshNamespaceCache (some listed) }

/- Every call that began has returned. -/
def AllReturned (s : InformerState ι) : Prop := ∀ i, (s.phase i).Begun → (s.phase i).Returned

/- The resource of a registered target. -/
def TargetState.gvr (lib : Libraries) (st : TargetState) : GroupVersionResource :=
  gvrFromProfile lib st.profile.spec.targetGVK

/- The namespace set the call records. -/
def RegisterCall.effective (lib : Libraries) (call : RegisterCall) (e : Engine) : List Text :=
  resolveEffective lib (registrationCache e call.opts call.listed) call.target call.opts

/- An informer delivers the objects of its one namespace. -/
def Delivers (scope : Text) (u : Unstructured) : Prop := scope = namespaceAll ∨ u.namespace_ = scope

/- Objects of a kind have a namespace, or none of them has. -/
def ObjectOf (namespaced : GroupVersionResource → Bool)
    (gvr : GroupVersionResource) (u : Unstructured) : Prop :=
  u.namespace_ = [] ↔ namespaced gvr = false

/-
  Each object that passes the namespace check of a target is in the scope of the informer that runs
  for its resource.
-/
def Covered (lib : Libraries) (namespaced : GroupVersionResource → Bool)
    (s : InformerState ι) : Prop :=
  ∀ key st, s.engine.targets.lookup key = some st → st.effectiveNamespaces ≠ [] →
    ∀ u, ObjectOf namespaced (st.gvr lib) u → acceptsNamespaceOf lib s.engine key u = true →
      ∃ scope, s.informerScopes.lookup (st.gvr lib) = some scope ∧ Delivers scope u

end Runs

----
-- The Agreed Namespace
----

theorem agreedNamespace_some (single : Text) (sets : List (List Text)) :
    agreedNamespace (some single) sets = namespaceAll ∨
      (agreedNamespace (some single) sets = single ∧ ∀ set ∈ sets, set = [single]) := by
  induction sets with
  | nil => exact Or.inr ⟨rfl, by simp⟩
  | cons set rest ih =>
    match set with
    | [] => exact Or.inl rfl
    | [ns] =>
      rw [agreedNamespace]
      split_ifs with hNs
      · rcases ih with hAll | ⟨hSame, hRest⟩
        · exact Or.inl hAll
        · right
          refine ⟨hSame, List.forall_mem_cons.mpr ?_⟩
          exact ⟨by rw [hNs], hRest⟩
      · exact Or.inl rfl
    | _ :: _ :: _ => exact Or.inl rfl

theorem agreedNamespace_none {sets : List (List Text)} {set : List Text} (hMem : set ∈ sets) :
    agreedNamespace none sets = namespaceAll ∨ set = [agreedNamespace none sets] := by
  match sets with
  | [] => cases hMem
  | [] :: _ => exact Or.inl rfl
  | [ns] :: rest =>
    rw [agreedNamespace]
    rcases agreedNamespace_some ns rest with hAll | ⟨hSame, hRest⟩
    · exact Or.inl hAll
    · right
      rw [hSame]
      rcases List.mem_cons.mp hMem with hFirst | hLater
      · exact hFirst
      · exact hRest set hLater
  | (_ :: _ :: _) :: _ => exact Or.inl rfl

/- The scope is wide enough for the set of the target. -/
def ScopeFits (scope : Text) (st : TargetState) : Prop :=
  scope = namespaceAll ∨ Text.sortUnique st.effectiveNamespaces = [scope]

theorem matchedNamespacesForState_of_nonempty (lib : Libraries) (e : Engine) {st : TargetState}
    (hSome : st.effectiveNamespaces ≠ []) : matchedNamespacesForState lib st e.nsMeta e.defaults =
      Text.sortUnique st.effectiveNamespaces := by
  unfold matchedNamespacesForState
  rw [if_neg]
  rw [List.isEmpty_iff]
  exact hSome

theorem watchNamespaceForGVR_fits (lib : Libraries) {e : Engine} {key : Text} {st : TargetState}
    (hLookup : e.targets.lookup key = some st) (hSome : st.effectiveNamespaces ≠ []) :
    ScopeFits (watchNamespaceForGVR lib e (st.gvr lib)) st := by
  have hEntry : (⟨key, st⟩ : Sigma fun _ : Text => TargetState) ∈ e.targets.entries :=
    AList.mem_lookup_iff.mp hLookup
  have hMem : matchedNamespacesForState lib st e.nsMeta e.defaults ∈
        (e.targets.entries.filter (fun entry =>
          gvrFromProfile lib entry.2.profile.spec.targetGVK == st.gvr lib)).map
          (fun entry => matchedNamespacesForState lib entry.2 e.nsMeta e.defaults) := by
    apply List.mem_map.mpr
    refine ⟨⟨key, st⟩, List.mem_filter.mpr ⟨hEntry, ?_⟩, rfl⟩
    exact beq_self_eq_true _
  unfold ScopeFits
  rw [← matchedNamespacesForState_of_nonempty lib e hSome]
  exact agreedNamespace_none hMem

----
-- What A Registration Leaves
----

section Registration

variable {ι : Type} [DecidableEq ι] (lib : Libraries)

theorem defaults_unregisterTarget (e : Engine) (ns name : Text) :
    (unregisterTarget lib e ns name).defaults = e.defaults := by
  rcases e.unindexRegistered_eq lib (targetKey ns name) with ⟨index, hIndex⟩
  unfold unregisterTarget unregisterLocked
  rw [hIndex]

theorem effective_congr (call : RegisterCall) {e e' : Engine} (hMeta : e'.nsMeta = e.nsMeta)
    (hDefaults : e'.defaults = e.defaults) : call.effective lib e' = call.effective lib e := by
  unfold RegisterCall.effective registrationCache resolveEffective Engine.refreshNamespaceCache
  split_ifs with hOwn
  · simp only [hMeta, hDefaults]
  · rfl

/-
  A registration that returns at once adds no state. The others add the state with the set of the
  call.
-/
theorem register_spec (s : InformerState ι) (i : ι) (call : RegisterCall) :
    ∃ e p, s.register lib i call = { s with engine := e }.setPhase i p ∧
        e.defaults = s.engine.defaults ∧ ((∃ err, p = .returned err ∧
            ∀ key st, e.targets.lookup key = some st → s.engine.targets.lookup key = some st) ∨
          ∃ backfill, p = .waiting (call.gvr lib) backfill ∧ call.StartsInformer lib ∧
            ∀ key st, e.targets.lookup key = some st → s.engine.targets.lookup key = some st ∨
                (st.profile = call.profile ∧
                  st.effectiveNamespaces = call.effective lib s.engine)) := by
  unfold InformerState.register registerTarget RegisterCall.StartsInformer
  cases hSuspend : call.target.spec.suspend with
  | true =>
    refine ⟨_, _, rfl, defaults_unregisterTarget lib _ _ _, Or.inl ⟨none, rfl, ?_⟩⟩
    intro key st hLookup
    rw [lookup_unregisterTarget] at hLookup
    split_ifs at hLookup
    exact hLookup
  | false =>
    cases hRules : compileResourceRules lib call.target.spec.collectionFilter.resourceRules with
    | error err => exact ⟨_, _, rfl, rfl, Or.inl ⟨_, rfl, fun _ _ hLookup => hLookup⟩⟩
    | ok compiled =>
      let cache := registrationCache s.engine call.opts call.listed
      have hTargets : cache.targets = s.engine.targets := by
        unfold cache registrationCache
        split_ifs <;> rfl
      have hDefaults : cache.defaults = s.engine.defaults := by
        unfold cache registrationCache
        split_ifs <;> rfl
      rcases registerLocked_eq lib cache (keyOf call.target)
        (newTargetState call.target call.profile call.opts
          compiled (call.effective lib s.engine)) with
        ⟨index, hLocked⟩
      refine ⟨_, _, rfl, ?_, Or.inr ⟨_, rfl, ⟨rfl, compiled, rfl⟩, ?_⟩⟩
      · exact (congrArg Engine.defaults hLocked).trans hDefaults
      · intro key st hLookup
        have hNew := hLookup.symm.trans (congrArg (fun e => e.targets.lookup key) hLocked)
        rw [GoMap.lookup_insert_ite, hTargets] at hNew
        split_ifs at hNew
        · rw [Option.some.inj hNew]
          exact Or.inr ⟨rfl, rfl⟩
        · exact Or.inl hNew.symm

end Registration

----
-- The Invariant
----

/- The phase is about the informer of the resource. -/
def Phase.Concerns (gvr : GroupVersionResource) : Phase → Prop
  | .waiting gvr' _ => gvr' = gvr
  | .syncing gvr' _ => gvr' = gvr
  | _ => False

section Invariant

variable {ι : Type} {lib : Libraries} {calls : ι → RegisterCall}

/-
  The informer of a target is about to be looked at again, or what runs or will run next is wide
  enough for the target.
-/
def Scoped (lib : Libraries) (s : InformerState ι) (st : TargetState) : Prop :=
  (∃ i backfill, s.phase i = .waiting (st.gvr lib) backfill) ∨
    ((∀ i scope, s.phase i = .syncing (st.gvr lib) scope → ScopeFits scope st) ∧
      ((∃ i scope, s.phase i = .syncing (st.gvr lib) scope) ∨
        ∃ scope, s.informerScopes.lookup (st.gvr lib) = some scope ∧ ScopeFits scope st))

/- A state was recorded by a call, from some cache. -/
def Recorded (lib : Libraries) (calls : ι → RegisterCall) (e : Engine) (st : TargetState) : Prop :=
  ∃ i nsMeta, (calls i).StartsInformer lib ∧ st.profile = (calls i).profile ∧
    st.effectiveNamespaces = (calls i).effective lib { e with nsMeta := nsMeta }

structure ScopeInvariant
    (lib : Libraries) (calls : ι → RegisterCall) (e : Engine) (s : InformerState ι) : Prop where
  inv : CallInvariant lib (fun _ => true) calls s
  defaults : s.engine.defaults = e.defaults
  recorded : ∀ key st, s.engine.targets.lookup key = some st → Recorded lib calls e st
  fits : ∀ key st, s.engine.targets.lookup key = some st →
    st.effectiveNamespaces ≠ [] → Scoped lib s st

variable [DecidableEq ι]

variable {s : InformerState ι} {st : TargetState} {i : ι}

theorem Scoped.setPhase {t : InformerState ι} (hScoped : Scoped lib s st)
    (hPhase : t.phase = s.phase)
    (hScope : t.informerScopes.lookup (st.gvr lib) = s.informerScopes.lookup (st.gvr lib))
    {p : Phase} (hOld : ¬ (s.phase i).Concerns (st.gvr lib)) (hNew : ¬ p.Concerns (st.gvr lib)) :
    Scoped lib (t.setPhase i p) st := by
  have hSame : ∀ j q, q.Concerns (st.gvr lib) → ((t.setPhase i p).phase j = q ↔ s.phase j = q) := by
    intro j q hQ
    by_cases hJ : j = i
    · subst hJ
      rw [InformerState.setPhase_self]
      refine iff_of_false ?_ ?_
      · rintro rfl
        exact hNew hQ
      · intro hEq
        rw [hEq] at hOld
        exact hOld hQ
    · rw [InformerState.setPhase_of_ne _ hJ, hPhase]
  rcases hScoped with ⟨j, backfill, hWaiting⟩ | ⟨hFits, hNext⟩
  · exact Or.inl ⟨j, backfill, (hSame j (.waiting _ _) rfl).mpr hWaiting⟩
  · right
    refine ⟨?_, ?_⟩
    · intro j scope hSyncing
      exact hFits j scope ((hSame j (.syncing _ _) rfl).mp hSyncing)
    · rcases hNext with ⟨j, scope, hSyncing⟩ | ⟨scope, hRuns⟩
      · exact Or.inl ⟨j, scope, (hSame j (.syncing _ _) rfl).mpr hSyncing⟩
      · right
        refine ⟨scope, ?_, hRuns.2⟩
        exact hScope.trans hRuns.1

variable (hInv : CallInvariant lib (fun _ => true) calls s)

include hInv in
omit [DecidableEq ι] in
theorem not_syncing_of_mutex {j : ι} (hMu : s.informerMu = none ∨ s.informerMu = some i)
    (hJ : j ≠ i) (gvr : GroupVersionResource) (scope : Text) : s.phase j ≠ .syncing gvr scope := by
  intro hSyncing
  have hHolds : s.informerMu = some j := by
    rw [← hInv.mutex j, hSyncing]
    trivial
  rcases hMu with hFree | hMine
  · rw [hFree] at hHolds
    cases hHolds
  · rw [hMine] at hHolds
    exact hJ (Option.some.inj hHolds).symm

include hInv in
theorem scoped_acquire {backfill : Bool} (hFree : s.informerMu = none) {key : Text}
    (hLookup : s.engine.targets.lookup key = some st) (hSome : st.effectiveNamespaces ≠ []) :
    Scoped lib ({ s with informerMu := some i }.setPhase i
        (s.afterAcquire lib (st.gvr lib) backfill)) st := by
  have hFits := watchNamespaceForGVR_fits lib hLookup hSome
  have hOthers : ∀ j, j ≠ i → ∀ scope, s.phase j ≠ .syncing (st.gvr lib) scope :=
    fun j hJ scope => not_syncing_of_mutex hInv (Or.inl hFree) hJ _ scope
  right
  unfold InformerState.afterAcquire
  dsimp only
  split_ifs with hCovers
  · refine ⟨?_, Or.inr ?_⟩
    · intro j scope hSyncing
      by_cases hJ : j = i
      · rw [hJ, InformerState.setPhase_self] at hSyncing
        cases hSyncing
      · rw [InformerState.setPhase_of_ne _ hJ] at hSyncing
        exact absurd hSyncing (hOthers j hJ scope)
    · unfold InformerState.covers at hCovers
      split at hCovers
      · cases hCovers
      · rename_i current hCurrent
        refine ⟨current, hCurrent, ?_⟩
        rcases Bool.or_eq_true_iff.mp hCovers with hAll | hSame
        · exact Or.inl (eq_of_beq hAll)
        · rw [eq_of_beq hSame]
          exact hFits
  · refine ⟨?_, Or.inl ⟨i, _, InformerState.setPhase_self _ _ _⟩⟩
    intro j scope hSyncing
    by_cases hJ : j = i
    · rw [hJ, InformerState.setPhase_self] at hSyncing
      cases hSyncing
      exact hFits
    · rw [InformerState.setPhase_of_ne _ hJ] at hSyncing
      exact absurd hSyncing (hOthers j hJ scope)

include hInv in
theorem scoped_synced {scope : Text} {redispatch : Bool}
    (hSyncing : s.phase i = .syncing (st.gvr lib) scope) (hScoped : Scoped lib s st) :
    Scoped lib ({ s with informerScopes := s.informerScopes.insert (st.gvr lib) scope }.setPhase i
        (.dispatching redispatch)) st := by
  have hMine : s.informerMu = some i := by
    rw [← hInv.mutex i, hSyncing]
    trivial
  rcases hScoped with ⟨j, backfill, hWaiting⟩ | ⟨hFits, -⟩
  · left
    have hJ : j ≠ i := by
      rintro rfl
      rw [hSyncing] at hWaiting
      cases hWaiting
    refine ⟨j, backfill, ?_⟩
    rw [InformerState.setPhase_of_ne _ hJ]
    exact hWaiting
  · right
    refine ⟨?_, Or.inr ⟨scope, AList.lookup_insert _, hFits i scope hSyncing⟩⟩
    intro j scope' hOther
    by_cases hJ : j = i
    · rw [hJ, InformerState.setPhase_self] at hOther
      cases hOther
    · rw [InformerState.setPhase_of_ne _ hJ] at hOther
      exact absurd hOther (not_syncing_of_mutex hInv (Or.inr hMine) hJ _ scope')

variable {e : Engine}

omit [DecidableEq ι] in
theorem scopeInvariant_start (hFresh : e.targets = ∅) :
    ScopeInvariant lib calls e (InformerState.start ι e) where
  inv := callInvariant_start e
  defaults := rfl
  recorded key st hLookup := by
    change e.targets.lookup key = some st at hLookup
    rw [hFresh] at hLookup
    cases hLookup
  fits key st hLookup := by
    change e.targets.lookup key = some st at hLookup
    rw [hFresh] at hLookup
    cases hLookup

omit [DecidableEq ι] in
theorem recorded_register (hInv : ScopeInvariant lib calls e s)
    (hStarts : (calls i).StartsInformer lib) (hProfile : st.profile = (calls i).profile)
    (hSet : st.effectiveNamespaces = (calls i).effective lib s.engine) :
    Recorded lib calls e st := by
  refine ⟨i, s.engine.nsMeta, hStarts, hProfile, ?_⟩
  rw [hSet]
  exact effective_congr lib (calls i) rfl hInv.defaults

theorem fits_step (hInv : ScopeInvariant lib calls e s) (a : InformerLabel ι) :
    (s.step lib (fun _ => true) calls a).engine.defaults = e.defaults ∧ ∀ key st,
        (s.step lib (fun _ => true) calls a).engine.targets.lookup key = some st →
        Recorded lib calls e st ∧
          (st.effectiveNamespaces ≠ [] → Scoped lib (s.step lib (fun _ => true) calls a) st) := by
  have hOld : ∀ key st, s.engine.targets.lookup key = some st →
      Recorded lib calls e st ∧ (st.effectiveNamespaces ≠ [] → Scoped lib s st) :=
    fun key st hLookup => ⟨hInv.recorded key st hLookup, hInv.fits key st hLookup⟩
  have hCase : StepCase lib (fun _ => true) calls s a _ := stepCase s a
  generalize s.step lib (fun _ => true) calls a = s' at hCase ⊢
  cases hCase with
  | none => exact ⟨hInv.defaults, hOld⟩
  | unregister ns name =>
    refine ⟨?_, ?_⟩
    · exact (defaults_unregisterTarget lib _ _ _).trans hInv.defaults
    · intro key st hLookup
      rw [lookup_unregisterTarget] at hLookup
      split_ifs at hLookup
      exact hOld key st hLookup
  | begin_ i hIdle =>
    have hUnconcerned : ∀ gvr, ¬ (s.phase i).Concerns gvr := by
      intro gvr
      rw [hIdle]
      exact id
    rcases register_spec lib s i (calls i) with ⟨e', p, hRegister, hDefaults, hP⟩
    rw [hRegister]
    refine ⟨hDefaults.trans hInv.defaults, ?_⟩
    intro key st hLookup
    rcases hP with ⟨err, rfl, hLess⟩ | ⟨backfill, rfl, hStarts, hMore⟩
    · have hOldSt := hOld key st (hLess key st hLookup)
      refine ⟨hOldSt.1, fun hSome => ?_⟩
      exact (hOldSt.2 hSome).setPhase rfl rfl (hUnconcerned _) id
    · by_cases hGvr : (calls i).gvr lib = st.gvr lib
      · -- the new call looks at the informer once more
        refine ⟨?_, fun _ => Or.inl ⟨i, backfill, ?_⟩⟩
        · rcases hMore key st hLookup with hBefore | ⟨hProfile, hSet⟩
          · exact (hOld key st hBefore).1
          · exact recorded_register hInv hStarts hProfile hSet
        · rw [InformerState.setPhase_self, hGvr]
      · rcases hMore key st hLookup with hBefore | ⟨hProfile, -⟩
        · have hOldSt := hOld key st hBefore
          refine ⟨hOldSt.1, fun hSome => ?_⟩
          exact (hOldSt.2 hSome).setPhase rfl rfl (hUnconcerned _) hGvr
        · refine absurd ?_ hGvr
          unfold RegisterCall.gvr TargetState.gvr
          rw [hProfile]
  | acquire i gvr backfill hWaiting hFree =>
    refine ⟨hInv.defaults, ?_⟩
    intro key st hLookup
    have hOldSt := hOld key st hLookup
    refine ⟨hOldSt.1, fun hSome => ?_⟩
    by_cases hGvr : gvr = st.gvr lib
    · rw [hGvr]
      exact scoped_acquire hInv.inv hFree hLookup hSome
    · apply (hOldSt.2 hSome).setPhase rfl rfl
      · rw [hWaiting]
        exact hGvr
      · unfold InformerState.afterAcquire
        dsimp only
        split_ifs
        · exact id
        · exact hGvr
  | synced i gvr scope hSyncing hListable =>
    refine ⟨hInv.defaults, ?_⟩
    intro key st hLookup
    have hOldSt := hOld key st hLookup
    refine ⟨hOldSt.1, fun hSome => ?_⟩
    by_cases hGvr : gvr = st.gvr lib
    · subst hGvr
      exact scoped_synced hInv.inv hSyncing (hOldSt.2 hSome)
    · refine (hOldSt.2 hSome).setPhase ?_ ?_ ?_ ?_
      · rfl
      · exact AList.lookup_insert_ne (Ne.symm hGvr)
      · rw [hSyncing]
        exact hGvr
      · exact id
  | finish i redispatch hDispatching =>
    refine ⟨hInv.defaults, ?_⟩
    intro key st hLookup
    have hOldSt := hOld key st hLookup
    refine ⟨hOldSt.1, fun hSome => ?_⟩
    apply (hOldSt.2 hSome).setPhase rfl rfl
    · rw [hDispatching]
      exact id
    · exact id

theorem scopeInvariant_step (s : InformerState ι) (a : ScopeLabel ι)
    (hInv : ScopeInvariant lib calls e s) :
    ScopeInvariant lib calls e (scopeStep lib calls s a) := by
  cases a with
  | refresh listed =>
    exact
      ⟨⟨hInv.inv.mutex, hInv.inv.started, hInv.inv.phase⟩, hInv.defaults, hInv.recorded, hInv.fits⟩
  | call a =>
    rcases fits_step hInv a with ⟨hDefaults, hStates⟩
    exact ⟨callInvariant_step s a hInv.inv, hDefaults,
        fun key st hLookup => (hStates key st hLookup).1,
        fun key st hLookup => (hStates key st hLookup).2⟩

omit [DecidableEq ι] in
/- Once all calls have returned, each informer fits. -/
theorem scopeFits_of_allReturned (hInv : ScopeInvariant lib calls e s) (hReturned : AllReturned s)
    {key : Text} (hLookup : s.engine.targets.lookup key = some st)
    (hSome : st.effectiveNamespaces ≠ []) :
    ∃ scope, s.informerScopes.lookup (st.gvr lib) = some scope ∧ ScopeFits scope st := by
  rcases hInv.fits key st hLookup hSome with
    ⟨i, backfill, hWaiting⟩ |
    ⟨-, ⟨i, scope, hSyncing⟩ | hRuns⟩
  · have hEnd := hReturned i
    rw [hWaiting] at hEnd
    exact (hEnd trivial).elim
  · have hEnd := hReturned i
    rw [hSyncing] at hEnd
    exact (hEnd trivial).elim
  · exact hRuns

end Invariant

----
-- Objects Without A Namespace
----

section Coverage

variable {ι : Type} [DecidableEq ι]

/- In every run, once all calls have returned. -/
def InformersCover (lib : Libraries) (calls : ι → RegisterCall)
    (namespaced : GroupVersionResource → Bool) (e : Engine) : Prop :=
  ∀ labels, AllReturned (Run.exec (scopeStep lib calls) (InformerState.start ι e) labels) →
    Covered lib namespaced (Run.exec (scopeStep lib calls) (InformerState.start ι e) labels)

/-
  No call for a kind without namespaces has the set with just the default namespace, whatever the
  cache.
-/
def NeverDefaultOnly (lib : Libraries) (calls : ι → RegisterCall)
    (namespaced : GroupVersionResource → Bool) (e : Engine) : Prop :=
  ∀ i, (calls i).StartsInformer lib → namespaced ((calls i).gvr lib) = false → ∀ nsMeta,
      Text.sortUnique ((calls i).effective lib { e with nsMeta := nsMeta }) ≠ [namespaceDefault]

variable {lib : Libraries} {calls : ι → RegisterCall}

theorem exec_lone_call (e : Engine) (i : ι) {e' : Engine}
    {gvr : GroupVersionResource} {backfill : Bool} (nsMeta : GoMap Text NamespaceMeta)
    (hOutcome : registerTarget lib { e with nsMeta := nsMeta }
          (calls i).target (calls i).profile (calls i).opts (calls i).listed =
        .registered e' gvr backfill) : ∃ s, Run.exec (scopeStep lib calls) (InformerState.start ι e)
          [.refresh nsMeta, .call (.begin_ i), .call (.acquire i), .call (.synced i),
            .call (.finish i)] = s ∧ AllReturned s ∧ s.engine = e' ∧
        s.informerScopes.lookup gvr = some (watchNamespaceForGVR lib e' gvr) := by
  let waiting : InformerState ι :=
    { InformerState.start ι e with engine := e' }.setPhase i (.waiting gvr backfill)
  let syncing : InformerState ι := { waiting with informerMu := some i }.setPhase i
      (.syncing gvr (watchNamespaceForGVR lib e' gvr))
  let dispatching : InformerState ι :=
    { syncing with
      informerScopes :=
        syncing.informerScopes.insert gvr (watchNamespaceForGVR lib e' gvr) }.setPhase i
      (.dispatching false)
  have hBegin : scopeStep lib calls (scopeStep lib calls (InformerState.start ι e)
        (.refresh nsMeta)) (.call (.begin_ i)) = waiting := by
    simp only [scopeStep, InformerState.step, InformerState.start, InformerState.register]
    rw [show registerTarget lib (e.refreshNamespaceCache (some nsMeta)) _ _ _ _ = _ from hOutcome]
    rfl
  have hAcquire : scopeStep lib calls waiting (.call (.acquire i)) = syncing := by
    have hPhase : waiting.phase i = .waiting gvr backfill := InformerState.setPhase_self _ _ _
    have hMu : waiting.informerMu = none := rfl
    simp only [scopeStep, InformerState.step, hPhase, hMu]
    rfl
  have hSynced : scopeStep lib calls syncing (.call (.synced i)) = dispatching := by
    have hPhase : syncing.phase i = .syncing gvr (watchNamespaceForGVR lib e' gvr) :=
      InformerState.setPhase_self _ _ _
    simp only [scopeStep, InformerState.step, hPhase, if_true]
    rfl
  have hFinish : scopeStep lib calls dispatching (.call (.finish i)) =
        { dispatching with informerMu := none }.setPhase i (.returned none) := by
    have hPhase : dispatching.phase i = .dispatching false := InformerState.setPhase_self _ _ _
    simp only [scopeStep, InformerState.step, hPhase]
  refine ⟨{ dispatching with informerMu := none }.setPhase i (.returned none), ?_, ?_, rfl, ?_⟩
  · rw [Run.exec_cons, Run.exec_cons, hBegin, Run.exec_cons,
      hAcquire, Run.exec_cons, hSynced, Run.exec_cons, hFinish, Run.exec_nil]
  · intro j hBegun
    by_cases hJ : j = i
    · rw [hJ, InformerState.setPhase_self]
      trivial
    · simp only [dispatching, syncing, waiting, InformerState.setPhase_of_ne _ hJ] at hBegun
      exact hBegun.elim
  · exact AList.lookup_insert _

variable {e : Engine}

theorem registerTarget_fresh (hFresh : e.targets = ∅) {call : RegisterCall}
    (hStarts : call.StartsInformer lib) :
    ∃ e' st backfill, registerTarget lib e call.target call.profile call.opts call.listed =
        .registered e' (st.gvr lib) backfill ∧
      e'.targets = AList.singleton (keyOf call.target) st ∧ st.profile = call.profile ∧
      st.effectiveNamespaces = call.effective lib e := by
  rcases hStarts with ⟨hSuspend, compiled, hRules⟩
  have hTargets : (registrationCache e call.opts call.listed).targets = ∅ := by
    unfold registrationCache
    split_ifs
    · exact hFresh
    · exact hFresh
  rcases registerLocked_eq lib (registrationCache e call.opts call.listed) (keyOf call.target)
    (newTargetState call.target call.profile call.opts compiled
      (call.effective lib e)) with ⟨index, hLocked⟩
  rw [hTargets] at hLocked
  unfold registerTarget
  rw [hSuspend, hRules]
  refine ⟨_, newTargetState call.target call.profile call.opts
    compiled (call.effective lib e), _, rfl, ?_, rfl, rfl⟩
  exact congrArg Engine.targets hLocked

theorem watchNamespaceForGVR_singleton {key : Text} {st : TargetState} {single : Text}
    (hTargets : e.targets = AList.singleton key st)
    (hSet : Text.sortUnique st.effectiveNamespaces = [single]) :
    watchNamespaceForGVR lib e (st.gvr lib) = single := by
  have hSome : st.effectiveNamespaces ≠ [] := by
    intro hNil
    rw [hNil] at hSet
    cases hSet
  have hMatched := matchedNamespacesForState_of_nonempty lib e hSome
  unfold watchNamespaceForGVR
  rw [hTargets]
  change agreedNamespace none
    ((([⟨key, st⟩] : List (Sigma fun _ : Text => TargetState)).filter _).map _) = single
  rw [List.filter_singleton]
  simp only [TargetState.gvr, beq_self_eq_true]
  change agreedNamespace none [matchedNamespacesForState lib st e.nsMeta e.defaults] = single
  rw [hMatched, hSet]
  rfl

theorem acceptsNamespaceOf_of_mem {key : Text} {st : TargetState}
    (hLookup : e.targets.lookup key = some st) (hSome : st.effectiveNamespaces ≠ [])
    (u : Unstructured) :
    acceptsNamespaceOf lib e key u = true ↔ resourceNamespace u ∈ st.effectiveNamespaces := by
  unfold acceptsNamespaceOf
  rw [hLookup]
  exact namespaceMatches_of_nonempty hSome

end Coverage

/-
  Informers cover what their targets accept exactly when no call for a kind without namespaces has
  just the default namespace: its objects count as objects of that namespace, and an informer for
  that namespace does not deliver them.
-/
theorem informers_cover_iff {ι : Type} [DecidableEq ι] (lib : Libraries) (calls : ι → RegisterCall)
    (namespaced : GroupVersionResource → Bool) (e : Engine) (hFresh : e.targets = ∅) :
    InformersCover lib calls namespaced e ↔ NeverDefaultOnly lib calls namespaced e := by
  constructor
  · intro hCover i hStarts hKind nsMeta hSet
    rcases @registerTarget_fresh lib { e with nsMeta := nsMeta }
      hFresh (calls i) hStarts with
      ⟨e', st, backfill, hOutcome, hTargets, hProfile, hEffective⟩
    rcases exec_lone_call e i nsMeta hOutcome with ⟨s, hRun, hReturned, hEngine, hRuns⟩
    have hCovered := hCover _ (hRun ▸ hReturned)
    rw [hRun] at hCovered
    rw [← hEffective] at hSet
    have hMem : namespaceDefault ∈ st.effectiveNamespaces := by
      apply (Text.mem_sortUnique.mp _).1
      rw [hSet]
      exact List.mem_singleton_self _
    have hLookup : s.engine.targets.lookup (keyOf (calls i).target) = some st := by
      rw [hEngine, hTargets]
      exact AList.lookup_insert ∅
    have hSome := List.ne_nil_of_mem hMem
    have hKind' : namespaced (st.gvr lib) = false := by
      unfold TargetState.gvr
      rw [hProfile]
      exact hKind
    -- an object without a namespace
    let u : Unstructured := ⟨[], [], [], ∅, []⟩
    rcases hCovered _ st hLookup hSome u
      (iff_of_true rfl hKind')
      ((acceptsNamespaceOf_of_mem hLookup hSome u).mpr hMem) with
      ⟨scope, hScope, hDelivers⟩
    rw [hRuns, watchNamespaceForGVR_singleton hTargets hSet] at hScope
    rw [← Option.some.inj hScope] at hDelivers
    rcases hDelivers with hAll | hSame
    · exact absurd hAll (by decide)
    · exact absurd hSame (by decide)
  · intro hNever labels hReturned key st hLookup hSome u hObject hAccepts
    have hInv := Run.exec_preserves scopeInvariant_step
      (@scopeInvariant_start ι lib calls e hFresh) labels
    rcases scopeFits_of_allReturned hInv hReturned hLookup hSome with ⟨scope, hRuns, hFits⟩
    refine ⟨scope, hRuns, ?_⟩
    rcases hFits with hAll | hSet
    · exact Or.inl hAll
    · right
      have hMem := (acceptsNamespaceOf_of_mem hLookup hSome u).mp hAccepts
      have hIn : resourceNamespace u ∈ [scope] := by
        rw [← hSet, Text.mem_sortUnique]
        exact ⟨hMem, resourceNamespace_ne_nil u⟩
      have hScope := List.mem_singleton.mp hIn
      by_cases hNs : u.namespace_ = []
      · -- the object counts as one of the default namespace
        rcases hInv.recorded key st hLookup with ⟨i, nsMeta, hStarts, hProfile, hEffective⟩
        have hKind : namespaced ((calls i).gvr lib) = false := by
          have hGvr : (calls i).gvr lib = st.gvr lib := by
            unfold RegisterCall.gvr TargetState.gvr
            rw [hProfile]
          rw [hGvr]
          exact hObject.mp hNs
        refine absurd ?_ (hNever i hStarts hKind nsMeta)
        rw [← hEffective, hSet, ← hScope, resourceNamespace, if_pos hNs]
      · rw [resourceNamespace, if_neg hNs] at hScope
        exact hScope

/- Nodes have no namespace. -/
def hasNamespaces (gvr : GroupVersionResource) : Bool := gvr.resource != ("nodes" : Text)

/- A target for nodes that is resolved to one namespace. -/
def nodesIn (ns : Text) : RegisterCall where
  target := targetIncluding []
  profile := ⟨"nodes", 1, ∅, ⟨⟨"", "v1", "Node"⟩, []⟩⟩
  opts := ⟨⟨[], []⟩, [ns]⟩
  listed := none

theorem nodes_of_team_are_covered :
    InformersCover Libraries.plain (fun _ : Unit => nodesIn "team-a") hasNamespaces
      (Engine.fresh twoNamespaces) := by
  refine (informers_cover_iff Libraries.plain (fun _ : Unit => nodesIn "team-a") hasNamespaces
    (Engine.fresh twoNamespaces) rfl).mpr ?_
  intro i _ _ nsMeta
  have hSet : (nodesIn "team-a").effective Libraries.plain
      { Engine.fresh twoNamespaces with nsMeta := nsMeta } = [("team-a" : Text)] :=
    rfl
  rw [hSet]
  decide

/- The state once the nodes of the default namespace are up. -/
def nodesRegistered : InformerState Unit :=
  Run.exec (scopeStep Libraries.plain (fun _ : Unit => nodesIn namespaceDefault))
    (InformerState.start Unit (Engine.fresh twoNamespaces))
    [.call (.begin_ ()), .call (.acquire ()), .call (.synced ()), .call (.finish ())]

/-
  A node passes the namespace check, and the informer runs in the default namespace, where there are
  no nodes.
-/
theorem nodes_are_invisible : acceptsNamespaceOf Libraries.plain nodesRegistered.engine
        (keyOf (targetIncluding [])) (objectIn []) = true ∧
      nodesRegistered.informerScopes.lookup ⟨"", "v1", "nodes"⟩ = some namespaceDefault ∧
      ¬ Delivers namespaceDefault (objectIn []) ∧ ¬ InformersCover Libraries.plain
        (fun _ : Unit => nodesIn namespaceDefault) hasNamespaces (Engine.fresh twoNamespaces) := by
  have hAccepts : acceptsNamespaceOf Libraries.plain
      nodesRegistered.engine (keyOf (targetIncluding []))
      (objectIn []) = true := by
    decide +kernel
  have hScope : nodesRegistered.informerScopes.lookup ⟨"", "v1", "nodes"⟩ = some namespaceDefault :=
    rfl
  have hMissed : ¬ Delivers namespaceDefault (objectIn []) := by
    rintro (h | h)
    · exact absurd h (by decide)
    · exact absurd h (by decide)
  refine ⟨hAccepts, hScope, hMissed, ?_⟩
  intro hCover
  have hReturned : AllReturned nodesRegistered := fun _ _ => trivial
  rcases hCover _ hReturned _ _ rfl
    (List.cons_ne_nil namespaceDefault []) (objectIn [])
    (iff_of_true rfl rfl) hAccepts with
    ⟨scope, hRuns, hDelivers⟩
  have hSame : scope = namespaceDefault := Option.some.inj (hRuns.symm.trans hScope)
  rw [hSame] at hDelivers
  exact hMissed hDelivers

end Collect

end Kollect
