import Kollect.Collect.Engine
import Kollect.Foundation.Fair
import Mathlib.Logic.Function.Basic

/-
  Starting informers: concurrent `RegisterTarget` calls go through one mutex, and the call that
  holds it waits for the cache of its informer to sync (`startInformer` of
  `internal/collect/engine.go` and the informer scope of `namespace_scope.go`).

  A cache syncs once its resource can be listed. The wait is bounded by nothing else: it runs under
  the engine's run context, which is not cancelled here.

  Progress is settled by `registrations_progress_iff`.
-/

----
-- Informer Scope
----

namespace Kollect

namespace Collect

/- `metav1.NamespaceAll`. -/
def namespaceAll : Text := []

variable (lib : Libraries)

/- The namespaces a registered target watches. -/
def matchedNamespacesForState (st : TargetState) (nsMeta : GoMap Text NamespaceMeta)
    (defaults : NamespaceDefaults) : List Text :=
  if st.effectiveNamespaces.isEmpty then
    matchIntentNamespaces lib st.target.spec.collectionFilter
      st.target.spec.namespaceSelector nsMeta defaults
  else
    Text.sortUnique st.effectiveNamespaces

/-
  The namespace all targets agree on, given the one seen so far; all namespaces when a target
  watches none or several.
-/
def agreedNamespace : Option Text → List (List Text) → Text
  | seen, [] => seen.getD namespaceAll
  | none, [ns] :: rest => agreedNamespace (some ns) rest
  | some single, [ns] :: rest =>
    if ns = single then agreedNamespace (some single) rest
    else namespaceAll
  | _, _ :: _ => namespaceAll

def watchNamespaceForGVR (e : Engine) (gvr : GroupVersionResource) : Text :=
  agreedNamespace none
    ((e.targets.entries.filter (fun entry =>
        gvrFromProfile lib entry.2.profile.spec.targetGVK == gvr)).map
      (fun entry =>
        matchedNamespacesForState lib entry.2 e.nsMeta e.defaults))

----
-- Calls
----

structure RegisterCall where
  target : KollectTarget
  profile : KollectProfile
  opts : RegisterTargetOptions
  listed : Option (GoMap Text NamespaceMeta)

/- The resource the call needs an informer for. -/
def RegisterCall.gvr (call : RegisterCall) : GroupVersionResource :=
  gvrFromProfile lib call.profile.spec.targetGVK

/- The call gets past its checks and starts an informer. -/
def RegisterCall.StartsInformer (call : RegisterCall) : Prop :=
  call.target.spec.suspend = false ∧
    ∃ compiled,
      compileResourceRules lib call.target.spec.collectionFilter.resourceRules = .ok compiled

/- How far a call has come. -/
inductive Phase where
  | idle
  | waiting (gvr : GroupVersionResource) (backfill : Bool)
  | syncing (gvr : GroupVersionResource) (scope : Text)
  | dispatching (redispatch : Bool)
  | returned (err : Option Text)

/- The call holds the informer mutex. -/
def Phase.Holding : Phase → Prop
  | .syncing _ _ => True
  | .dispatching _ => True
  | _ => False

def Phase.Begun : Phase → Prop
  | .idle => False
  | _ => True

def Phase.Returned : Phase → Prop
  | .returned _ => True
  | _ => False

/-
  The engine and its running informers. `informerScopes` has an entry for each resource whose
  informer was started.
-/
structure InformerState (ι : Type) where
  engine : Engine
  informerScopes : GoMap GroupVersionResource Text
  informerMu : Option ι
  phase : ι → Phase

def InformerState.Started {ι : Type} (s : InformerState ι) (gvr : GroupVersionResource) : Prop :=
  (s.informerScopes.lookup gvr).isSome = true

/- The steps of the calls, and what else the engine does. -/
inductive InformerLabel (ι : Type) where
  | begin_ (i : ι)
  | acquire (i : ι)
  | synced (i : ι)
  | finish (i : ι)
  | unregister (namespace_ name : Text)
  | tick

namespace InformerState

variable {ι : Type} [DecidableEq ι]

def setPhase (s : InformerState ι) (i : ι) (p : Phase) : InformerState ι :=
  { s with phase := Function.update s.phase i p }

/- The running informer already covers the scope. -/
def covers (s : InformerState ι) (gvr : GroupVersionResource) (desired : Text) : Bool :=
  match s.informerScopes.lookup gvr with
  | none => false
  | some current =>
    current == namespaceAll || current == desired

/- What `startInformer` does first with the mutex held. -/
def afterAcquire (s : InformerState ι) (gvr : GroupVersionResource) (backfill : Bool) : Phase :=
  let desired := watchNamespaceForGVR lib s.engine gvr
  if s.covers gvr desired then .dispatching backfill
  else .syncing gvr desired

/- The registration part of a call. -/
def register (s : InformerState ι) (i : ι) (call : RegisterCall) : InformerState ι :=
  match registerTarget lib s.engine call.target call.profile call.opts call.listed with
  | .suspended e =>
    { s with engine := e }.setPhase i (.returned none)
  | .invalidRules e err =>
    { s with engine := e }.setPhase i (.returned (some err))
  | .registered e gvr backfill =>
    { s with engine := e }.setPhase i (.waiting gvr backfill)

/-
  A label that is not enabled changes nothing. `synced` is the return of `WaitForCacheSync`, which
  needs the resource to be listable.
-/
def step (listable : GroupVersionResource → Bool) (calls : ι → RegisterCall)
    (s : InformerState ι) : InformerLabel ι → InformerState ι
  | .begin_ i =>
    match s.phase i with
    | .idle => s.register lib i (calls i)
    | _ => s
  | .acquire i =>
    match s.phase i, s.informerMu with
    | .waiting gvr backfill, none =>
      { s with informerMu := some i }.setPhase i (s.afterAcquire lib gvr backfill)
    | _, _ => s
  | .synced i =>
    match s.phase i with
    | .syncing gvr scope =>
      if listable gvr then
        { s with
          informerScopes := s.informerScopes.insert gvr scope }.setPhase i
          (.dispatching (s.informerScopes.lookup gvr).isSome)
      else s
    | _ => s
  | .finish i =>
    match s.phase i with
    | .dispatching _ =>
      { s with informerMu := none }.setPhase i (.returned none)
    | _ => s
  | .unregister namespace_ name =>
    { s with engine := unregisterTarget lib s.engine namespace_ name }
  | .tick => s

/- When a label does something. -/
def Enabled (listable : GroupVersionResource → Bool) (s : InformerState ι) : InformerLabel ι → Prop
  | .begin_ i => s.phase i = .idle
  | .acquire i =>
    (∃ gvr backfill, s.phase i = .waiting gvr backfill) ∧ s.informerMu = none
  | .synced i =>
    ∃ gvr scope, s.phase i = .syncing gvr scope ∧ listable gvr = true
  | .finish i => ∃ redispatch, s.phase i = .dispatching redispatch
  | .unregister _ _ => True
  | .tick => True

def start (ι : Type) (e : Engine) : InformerState ι where
  engine := e
  informerScopes := ∅
  informerMu := none
  phase _ := .idle

end InformerState

----
-- Fair Registrations
----

section Properties

variable {ι : Type} [DecidableEq ι] (lib : Libraries) (listable : GroupVersionResource → Bool)
variable (calls : ι → RegisterCall)

abbrev Registrations :=
  Fair.Behavior (InformerState.step lib listable calls)

/-
  A fair run from an engine without informers: a call that can go on does, and the mutex starves
  nobody.
-/
structure FairRegistrations (b : Registrations lib listable calls) : Prop where
  start : ∃ e, b.state 0 = InformerState.start ι e
  synced :
    ∀ i, Fair.Weak (InformerState.Enabled listable) b (.synced i)
  finish :
    ∀ i, Fair.Weak (InformerState.Enabled listable) b (.finish i)
  acquire :
    ∀ i, Fair.Strong (InformerState.Enabled listable) b (.acquire i)

variable {lib} {listable} {calls}

variable (b : Registrations lib listable calls)

/- Every call that begins returns. -/
def AllReturn : Prop :=
  ∀ i n, ((b.state n).phase i).Begun → ∃ m ≥ n, ((b.state m).phase i).Returned

/- Every registered, listable resource gets its informer. -/
def InformersRun : Prop :=
  ∀ i n, ((b.state n).phase i).Begun →
    (calls i).StartsInformer lib →
      listable ((calls i).gvr lib) = true → ∃ m ≥ n, (b.state m).Started ((calls i).gvr lib)

/- The calls of the run ask for listable resources only. -/
def OnlyListable : Prop :=
  ∀ i n, ((b.state n).phase i).Begun →
    (calls i).StartsInformer lib → listable ((calls i).gvr lib) = true

end Properties

----
-- What A Step Does
----

section Steps

variable {ι : Type} [DecidableEq ι] {lib : Libraries} {listable : GroupVersionResource → Bool}
variable {calls : ι → RegisterCall} {s : InformerState ι}

namespace InformerState

@[simp] theorem setPhase_self (s : InformerState ι) (i : ι) (p : Phase) :
    (s.setPhase i p).phase i = p :=
  Function.update_self _ _ _

theorem setPhase_of_ne (s : InformerState ι) {i j : ι} (hNe : j ≠ i) (p : Phase) :
    (s.setPhase i p).phase j = s.phase j :=
  Function.update_of_ne hNe _ _

end InformerState

/- A registration returns at once, without needing an informer, or goes on to wait for the mutex. -/
theorem register_cases (s : InformerState ι) (i : ι) (call : RegisterCall) :
    ∃ e p,
      s.register lib i call = { s with engine := e }.setPhase i p ∧
        ((∃ err, p = .returned err ∧ ¬ call.StartsInformer lib) ∨
          ∃ backfill, p = .waiting (call.gvr lib) backfill ∧ call.StartsInformer lib) := by
  unfold InformerState.register registerTarget RegisterCall.StartsInformer
  cases hSuspend : call.target.spec.suspend with
  | true =>
    exact ⟨_, _, rfl, Or.inl ⟨none, rfl, by simp⟩⟩
  | false =>
    simp only [Bool.false_eq_true, if_false]
    cases hRules :
        compileResourceRules lib call.target.spec.collectionFilter.resourceRules with
    | error err =>
      exact ⟨_, _, rfl, Or.inl ⟨_, rfl, by simp⟩⟩
    | ok compiled =>
      exact ⟨_, _, rfl, Or.inr ⟨_, rfl, trivial, compiled, rfl⟩⟩

/- The steps that change something. -/
inductive StepCase (lib : Libraries) (listable : GroupVersionResource → Bool)
    (calls : ι → RegisterCall) (s : InformerState ι) :
    InformerLabel ι → InformerState ι → Prop where
  | none (a : InformerLabel ι) : StepCase lib listable calls s a s
  | begin_ (i : ι) (hIdle : s.phase i = .idle) :
      StepCase lib listable calls s (.begin_ i) (s.register lib i (calls i))
  | acquire
      (i : ι)
      (gvr : GroupVersionResource)
      (backfill : Bool)
      (hWaiting : s.phase i = .waiting gvr backfill)
      (hFree : s.informerMu = Option.none) :
      StepCase lib listable calls s (.acquire i)
        ({ s with informerMu := some i }.setPhase i (s.afterAcquire lib gvr backfill))
  | synced
      (i : ι)
      (gvr : GroupVersionResource)
      (scope : Text)
      (hSyncing : s.phase i = .syncing gvr scope)
      (hListable : listable gvr = true) :
      StepCase lib listable calls s (.synced i)
        ({ s with
            informerScopes := s.informerScopes.insert gvr scope }.setPhase i
          (.dispatching (s.informerScopes.lookup gvr).isSome))
  | finish
      (i : ι)
      (redispatch : Bool)
      (hDispatching : s.phase i = .dispatching redispatch) :
      StepCase lib listable calls s (.finish i)
        ({ s with informerMu := Option.none }.setPhase i (.returned Option.none))
  | unregister (namespace_ name : Text) :
      StepCase lib listable calls s (.unregister namespace_ name)
        { s with
          engine := unregisterTarget lib s.engine namespace_ name }

theorem stepCase (s : InformerState ι) (a : InformerLabel ι) :
    StepCase lib listable calls s a (s.step lib listable calls a) := by
  cases a with
  | begin_ i =>
    simp only [InformerState.step]
    split
    · exact .begin_ i ‹_›
    · exact .none _
  | acquire i =>
    simp only [InformerState.step]
    split
    · exact .acquire i _ _ ‹_› ‹_›
    · exact .none _
  | synced i =>
    simp only [InformerState.step]
    split
    · split_ifs with hListable
      · exact .synced i _ _ ‹_› hListable
      · exact .none _
    · exact .none _
  | finish i =>
    simp only [InformerState.step]
    split
    · exact .finish i _ ‹_›
    · exact .none _
  | unregister namespace_ name =>
    exact .unregister namespace_ name
  | tick => exact .none _

/- The call waits for the mutex. -/
def Waiting (i : ι) (s : InformerState ι) : Prop :=
  ∃ gvr backfill, s.phase i = .waiting gvr backfill

/- The call waits for its cache to sync. -/
def Syncing (i : ι) (s : InformerState ι) : Prop :=
  ∃ gvr scope, s.phase i = .syncing gvr scope

/- The call sends cached objects to the dispatch queue. -/
def Dispatching (i : ι) (s : InformerState ι) : Prop :=
  ∃ redispatch, s.phase i = .dispatching redispatch

/- How a step can change the phase of a call. -/
inductive PhaseMove (i : ι) (s s' : InformerState ι) : Prop where
  | same (hSame : s'.phase i = s.phase i)
  | begins (hIdle : s.phase i = .idle)
  | acquires (hWaiting : Waiting i s) (hNext : Syncing i s' ∨ Dispatching i s')
  | syncs (hSyncing : Syncing i s) (hNext : Dispatching i s')
  | returns
      (hDispatching : Dispatching i s)
      (hNext : (s'.phase i).Returned)
      (hFree : s'.informerMu = none)

variable {s' : InformerState ι}

theorem phaseMove_setPhase_of_ne {i j : ι} (hPhase : s'.phase = s.phase) (hNe : i ≠ j) (p : Phase) :
    PhaseMove i s (s'.setPhase j p) := by
  refine .same ?_
  rw [InformerState.setPhase_of_ne _ hNe, hPhase]

/- Having acquired the mutex, a call syncs or dispatches. -/
omit [DecidableEq ι] in
theorem afterAcquire_cases (lib : Libraries) (s : InformerState ι)
    (gvr : GroupVersionResource) (backfill : Bool) :
    (∃ scope, s.afterAcquire lib gvr backfill = .syncing gvr scope) ∨ s.Started gvr ∧
        s.afterAcquire lib gvr backfill = .dispatching backfill := by
  unfold InformerState.afterAcquire
  simp only
  split_ifs with hCovers
  · right
    refine ⟨?_, rfl⟩
    -- a covering informer is a started one
    unfold InformerState.covers at hCovers
    cases hScope : s.informerScopes.lookup gvr with
    | none => simp [hScope] at hCovers
    | some scope => simp [InformerState.Started, hScope]
  · exact Or.inl ⟨_, rfl⟩

theorem acquired_setPhase (lib : Libraries) (s s' : InformerState ι) (i : ι)
    (gvr : GroupVersionResource) (backfill : Bool) : Syncing i
        (s'.setPhase i (s.afterAcquire lib gvr backfill)) ∨
      Dispatching i (s'.setPhase i (s.afterAcquire lib gvr backfill)) := by
  rcases afterAcquire_cases lib s gvr backfill with ⟨scope, hPhase⟩ | ⟨_, hPhase⟩
  · rw [hPhase]
    exact Or.inl ⟨gvr, scope, InformerState.setPhase_self _ _ _⟩
  · rw [hPhase]
    exact Or.inr ⟨backfill, InformerState.setPhase_self _ _ _⟩

/- A call moves on in one of the five ways. -/
theorem phaseMove_step (i : ι) (s : InformerState ι) (a : InformerLabel ι) :
    PhaseMove i s (s.step lib listable calls a) := by
  have hCase : StepCase lib listable calls s a _ := stepCase s a
  generalize s.step lib listable calls a = s' at hCase ⊢
  cases hCase with
  | none => exact .same rfl
  | unregister => exact .same rfl
  | begin_ j hIdle =>
    by_cases hJ : i = j
    · exact .begins (hJ ▸ hIdle)
    · rcases register_cases s j (calls j) with ⟨e, p, hRegister, _⟩
      rw [hRegister]
      exact phaseMove_setPhase_of_ne (by rfl) hJ p
  | acquire j gvr backfill hWaiting hFree =>
    by_cases hJ : i = j
    · subst hJ
      exact .acquires ⟨gvr, backfill, hWaiting⟩ (acquired_setPhase lib s _ i gvr backfill)
    · exact phaseMove_setPhase_of_ne (by rfl) hJ _
  | synced j gvr scope hSyncing hListable =>
    by_cases hJ : i = j
    · subst hJ
      exact .syncs ⟨gvr, scope, hSyncing⟩ ⟨_, InformerState.setPhase_self _ _ _⟩
    · exact phaseMove_setPhase_of_ne (by rfl) hJ _
  | finish j redispatch hDispatching =>
    by_cases hJ : i = j
    · subst hJ
      refine .returns ⟨redispatch, hDispatching⟩ ?_ rfl
      rw [InformerState.setPhase_self]
      trivial
    · exact phaseMove_setPhase_of_ne (by rfl) hJ _

----
-- What Holds In Every State
----

/- What a phase says about the call that is in it. -/
def PhaseOk (lib : Libraries) (s : InformerState ι) (call : RegisterCall) : Phase → Prop
  | .idle => True
  | .waiting gvr _ =>
    gvr = call.gvr lib ∧ call.StartsInformer lib
  | .syncing gvr _ =>
    gvr = call.gvr lib ∧ call.StartsInformer lib
  | .dispatching _ => s.Started (call.gvr lib)
  | .returned _ =>
    call.StartsInformer lib → s.Started (call.gvr lib)

/-
  The mutex is held by the call that syncs or dispatches, and only listable resources have
  informers.
-/
structure CallInvariant (lib : Libraries) (listable : GroupVersionResource → Bool)
    (calls : ι → RegisterCall) (s : InformerState ι) : Prop where
  mutex : ∀ i, (s.phase i).Holding ↔ s.informerMu = some i
  started : ∀ gvr, s.Started gvr → listable gvr = true
  phase : ∀ i, PhaseOk lib s (calls i) (s.phase i)

omit [DecidableEq ι] in
theorem PhaseOk.mono {call : RegisterCall} {p : Phase}
    (hStarted : ∀ gvr, s.Started gvr → s'.Started gvr) (hOk : PhaseOk lib s call p) :
    PhaseOk lib s' call p := by
  cases p with
  | idle => trivial
  | waiting | syncing => exact hOk
  | dispatching redispatch => exact hStarted _ hOk
  | returned err => exact fun h => hStarted _ (hOk h)

omit [DecidableEq ι] in
theorem callInvariant_start (e : Engine) :
    CallInvariant lib listable calls (InformerState.start ι e) where
  mutex _ := by simp [InformerState.start, Phase.Holding]
  started _ h := by
    simp [InformerState.Started, InformerState.start] at h
  phase _ := trivial

theorem callInvariant_setPhase (hInv : CallInvariant lib listable calls s) {i : ι} {p : Phase}
    (hPhase : s'.phase = s.phase)
    (hOthers : ∀ j, j ≠ i → (s'.informerMu = some j ↔ s.informerMu = some j))
    (hSelf : p.Holding ↔ s'.informerMu = some i) (hGrow : ∀ gvr, s.Started gvr → s'.Started gvr)
    (hListable : ∀ gvr, s'.Started gvr → listable gvr = true) (hOk : PhaseOk lib s' (calls i) p) :
    CallInvariant lib listable calls (s'.setPhase i p) := by
  refine ⟨?_, hListable, ?_⟩
  · intro j
    by_cases hJ : j = i
    · subst hJ
      rw [InformerState.setPhase_self]
      exact hSelf
    · rw [InformerState.setPhase_of_ne _ hJ, hPhase]
      exact (hInv.mutex j).trans (hOthers j hJ).symm
  · intro j
    by_cases hJ : j = i
    · subst hJ
      rw [InformerState.setPhase_self]
      exact hOk
    · rw [InformerState.setPhase_of_ne _ hJ, hPhase]
      exact (hInv.phase j).mono hGrow

theorem callInvariant_step (s : InformerState ι) (a : InformerLabel ι)
    (hInv : CallInvariant lib listable calls s) :
    CallInvariant lib listable calls (s.step lib listable calls a) := by
  have hCase : StepCase lib listable calls s a _ := stepCase s a
  generalize s.step lib listable calls a = s' at hCase ⊢
  cases hCase with
  | none => exact hInv
  | unregister =>
    exact ⟨hInv.mutex, hInv.started, hInv.phase⟩
  | begin_ i hIdle =>
    rcases register_cases s i (calls i) with ⟨e, p, hRegister, hP⟩
    rw [hRegister]
    have hFree : s.informerMu ≠ some i := by
      intro hMu
      have hHold := (hInv.mutex i).mpr hMu
      rw [hIdle] at hHold
      exact hHold
    refine callInvariant_setPhase hInv rfl (fun _ _ => Iff.rfl) ?_ (fun _ h => h) hInv.started ?_
    · rcases hP with ⟨err, rfl, _⟩ | ⟨backfill, rfl, _⟩
      · exact iff_of_false id hFree
      · exact iff_of_false id hFree
    · rcases hP with ⟨err, rfl, hNot⟩ | ⟨backfill, rfl, hGo⟩
      · exact fun h => absurd h hNot
      · exact ⟨rfl, hGo⟩
  | acquire i gvr backfill hWaiting hFree =>
    have hOk := hInv.phase i
    rw [hWaiting] at hOk
    have hNext := afterAcquire_cases lib s gvr backfill
    refine callInvariant_setPhase hInv rfl ?_ ?_ (fun _ h => h) hInv.started ?_
    · intro j hJ
      rw [hFree]
      exact iff_of_false (fun h => hJ (Option.some.inj h).symm) (by simp)
    · refine iff_of_true ?_ rfl
      rcases hNext with ⟨scope, hPhase⟩ | ⟨_, hPhase⟩
      · rw [hPhase]
        trivial
      · rw [hPhase]
        trivial
    · rcases hNext with ⟨scope, hPhase⟩ | ⟨hStarted, hPhase⟩
      · rw [hPhase]
        exact hOk
      · rw [hOk.1] at hStarted
        rw [hPhase]
        exact hStarted
  | synced i gvr scope hSyncing hListable =>
    have hOk := hInv.phase i
    rw [hSyncing] at hOk
    have hMu : s.informerMu = some i := by
      rw [← hInv.mutex i, hSyncing]
      trivial
    have hStarted : ∀ g, InformerState.Started
            { s with
              informerScopes := s.informerScopes.insert gvr scope } g ↔
          g = gvr ∨ s.Started g := by
      intro g
      unfold InformerState.Started
      rw [GoMap.lookup_insert_ite]
      by_cases hG : g = gvr
      · simp [hG]
      · simp [hG]
    refine callInvariant_setPhase hInv rfl (fun _ _ => Iff.rfl) (iff_of_true trivial hMu) ?_ ?_ ?_
    · exact fun g hG => (hStarted g).mpr (Or.inr hG)
    · intro g hG
      rcases (hStarted g).mp hG with rfl | hOld
      · exact hListable
      · exact hInv.started g hOld
    · exact (hStarted _).mpr (Or.inl hOk.1.symm)
  | finish i redispatch hDispatching =>
    have hOk := hInv.phase i
    rw [hDispatching] at hOk
    have hMu : s.informerMu = some i := by
      rw [← hInv.mutex i, hDispatching]
      trivial
    refine callInvariant_setPhase hInv rfl ?_
      (iff_of_false id (by simp)) (fun _ h => h)
      hInv.started (fun _ => hOk)
    intro j hJ
    rw [hMu]
    exact iff_of_false (by simp) (fun h => hJ (Option.some.inj h).symm)

end Steps

----
-- Progress
----

section Progress

variable {ι : Type} [DecidableEq ι] {lib : Libraries} {listable : GroupVersionResource → Bool}
variable {calls : ι → RegisterCall} {b : Registrations lib listable calls}

variable (hFair : FairRegistrations lib listable calls b)

include hFair in
theorem callInvariant_state (n : Nat) : CallInvariant lib listable calls (b.state n) := by
  rcases hFair.start with ⟨e, hStart⟩
  refine Fair.invariant ?_ callInvariant_step n
  rw [hStart]
  exact callInvariant_start e

variable {i : ι} {s : InformerState ι}

theorem syncing_step (a : InformerLabel ι) (hSyncing : Syncing i s) :
    Syncing i (s.step lib listable calls a) ∨ Dispatching i (s.step lib listable calls a) := by
  rcases hSyncing with ⟨gvr, scope, hPhase⟩
  rcases phaseMove_step i s a with hSame | hIdle | ⟨⟨g, w, hW⟩, _⟩ | ⟨_, hNext⟩ | ⟨⟨r, hD⟩, _, _⟩
  · exact Or.inl ⟨gvr, scope, hSame.trans hPhase⟩
  · simp [hPhase] at hIdle
  · simp [hPhase] at hW
  · exact Or.inr hNext
  · simp [hPhase] at hD

theorem dispatching_step (a : InformerLabel ι) (hDispatching : Dispatching i s) :
    Dispatching i (s.step lib listable calls a) ∨ ((s.step lib listable calls a).phase i).Returned ∧
        (s.step lib listable calls a).informerMu = none := by
  rcases hDispatching with ⟨redispatch, hPhase⟩
  rcases phaseMove_step i s a with
    hSame | hIdle | ⟨⟨g, w, hW⟩, _⟩ | ⟨⟨g, sc, hS⟩, _⟩ | ⟨_, hNext, hFree⟩
  · exact Or.inl ⟨redispatch, hSame.trans hPhase⟩
  · simp [hPhase] at hIdle
  · simp [hPhase] at hW
  · simp [hPhase] at hS
  · exact Or.inr ⟨hNext, hFree⟩

theorem waiting_step (a : InformerLabel ι) (hWaiting : Waiting i s) :
    Waiting i (s.step lib listable calls a) ∨
      (Syncing i (s.step lib listable calls a) ∨ Dispatching i (s.step lib listable calls a)) := by
  rcases hWaiting with ⟨gvr, backfill, hPhase⟩
  rcases phaseMove_step i s a with hSame | hIdle | ⟨_, hNext⟩ | ⟨⟨g, sc, hS⟩, _⟩ | ⟨⟨r, hD⟩, _, _⟩
  · exact Or.inl ⟨gvr, backfill, hSame.trans hPhase⟩
  · simp [hPhase] at hIdle
  · exact Or.inr hNext
  · simp [hPhase] at hS
  · simp [hPhase] at hD

section Returns

include hFair

/- A dispatching call returns and gives the mutex up. -/
theorem dispatching_leadsTo_returned (i : ι) :
    Fair.LeadsTo b (Dispatching i) (fun s => (s.phase i).Returned ∧ s.informerMu = none) := by
  refine Fair.leadsTo_of_weak (fun _ => dispatching_step) (hFair.finish i) ?_ ?_
  · exact fun n hDispatching => hDispatching
  · rintro n ⟨redispatch, hPhase⟩ hLabel
    rw [b.next, hLabel]
    simp only [InformerState.step, hPhase]
    rw [InformerState.setPhase_self]
    exact ⟨trivial, rfl⟩

variable (hListable : OnlyListable b)

include hListable

/- The cache of a listable resource syncs. -/
theorem syncing_leadsTo_dispatching (i : ι) : Fair.LeadsTo b (Syncing i) (Dispatching i) := by
  have hOn : ∀ n gvr scope, (b.state n).phase i = .syncing gvr scope → listable gvr = true := by
    intro n gvr scope hPhase
    have hOk := (callInvariant_state hFair n).phase i
    rw [hPhase] at hOk
    rw [hOk.1]
    exact hListable i n (by rw [hPhase]; trivial) hOk.2
  refine Fair.leadsTo_of_weak (fun _ => syncing_step) (hFair.synced i) ?_ ?_
  · rintro n ⟨gvr, scope, hPhase⟩
    exact ⟨gvr, scope, hPhase, hOn n gvr scope hPhase⟩
  · rintro n ⟨gvr, scope, hPhase⟩ hLabel
    rw [b.next, hLabel]
    simp only [InformerState.step, hPhase, hOn n gvr scope hPhase, if_true]
    exact ⟨_, InformerState.setPhase_self _ _ _⟩

theorem syncing_leadsTo_returned (i : ι) :
    Fair.LeadsTo b (Syncing i) (fun s => (s.phase i).Returned ∧ s.informerMu = none) :=
  (syncing_leadsTo_dispatching hFair hListable i).trans (dispatching_leadsTo_returned hFair i)

/- Whoever holds the mutex, it becomes free. -/
theorem mutex_becomes_free (n : Nat) : ∃ m ≥ n, (b.state m).informerMu = none := by
  cases hMu : (b.state n).informerMu with
  | none => exact ⟨n, le_refl n, hMu⟩
  | some j =>
    have hHold := ((callInvariant_state hFair n).mutex j).mpr hMu
    have hFree : ∃ m ≥ n, ((b.state m).phase j).Returned ∧ (b.state m).informerMu = none := by
      cases hPhase : (b.state n).phase j with
      | syncing gvr scope =>
        exact syncing_leadsTo_returned hFair hListable j n ⟨gvr, scope, hPhase⟩
      | dispatching redispatch =>
        exact dispatching_leadsTo_returned hFair j n ⟨redispatch, hPhase⟩
      | idle | waiting | returned =>
        rw [hPhase] at hHold
        exact hHold.elim
    rcases hFree with ⟨m, hM, _, hNone⟩
    exact ⟨m, hM, hNone⟩

/- A waiting call gets the mutex. -/
theorem waiting_leadsTo_acquired (i : ι) :
    Fair.LeadsTo b (Waiting i) (fun s => Syncing i s ∨ Dispatching i s) := by
  refine Fair.leadsTo_of_strong (fun _ => waiting_step) (hFair.acquire i) ?_ ?_
  · intro n hWaiting
    rcases mutex_becomes_free hFair hListable n with ⟨m, hM, hFree⟩
    -- the call got the mutex before, or it still waits
    by_cases hReached :
        ∃ k ≥ n, Syncing i (b.state k) ∨ Dispatching i (b.state k)
    · rcases hReached with ⟨k, hK, hNext⟩
      exact ⟨k, hK, Or.inl hNext⟩
    · have hNever : ∀ k ≥ n, ¬ (Syncing i (b.state k) ∨ Dispatching i (b.state k)) :=
        fun k hK hNext => hReached ⟨k, hK, hNext⟩
      have hStill : Waiting i (b.state m) :=
        Fair.forever_of_not_reached (Q := fun s => Syncing i s ∨ Dispatching i s)
          (fun _ => waiting_step) hWaiting hNever m hM
      exact ⟨m, hM, Or.inr ⟨hStill, hFree⟩⟩
  · rintro n _ ⟨⟨gvr, backfill, hPhase⟩, hFree⟩ hLabel
    rw [b.next, hLabel]
    simp only [InformerState.step, hPhase, hFree]
    exact acquired_setPhase lib _ _ i gvr backfill

/- Every call that begins returns. -/
theorem allReturn_of_onlyListable : AllReturn b := by
  intro i n hBegun
  have hHolding : ∀ n, Syncing i (b.state n) ∨ Dispatching i (b.state n) →
        ∃ m ≥ n, ((b.state m).phase i).Returned := by
    rintro n (hSyncing | hDispatching)
    · rcases syncing_leadsTo_returned hFair hListable i n hSyncing with ⟨m, hM, hReturned, _⟩
      exact ⟨m, hM, hReturned⟩
    · rcases dispatching_leadsTo_returned hFair i n hDispatching with ⟨m, hM, hReturned, _⟩
      exact ⟨m, hM, hReturned⟩
  cases hPhase : (b.state n).phase i with
  | idle =>
    rw [hPhase] at hBegun
    exact hBegun.elim
  | waiting gvr backfill =>
    rcases waiting_leadsTo_acquired hFair hListable i n ⟨gvr, backfill, hPhase⟩ with ⟨m, hM, hNext⟩
    rcases hHolding m hNext with ⟨k, hK, hReturned⟩
    exact ⟨k, le_trans hM hK, hReturned⟩
  | syncing gvr scope =>
    exact hHolding n (Or.inl ⟨gvr, scope, hPhase⟩)
  | dispatching redispatch =>
    exact hHolding n (Or.inr ⟨redispatch, hPhase⟩)
  | returned err =>
    refine ⟨n, le_refl n, ?_⟩
    rw [hPhase]
    trivial

omit hListable in
theorem started_of_returned {n : Nat} (hReturned : ((b.state n).phase i).Returned)
    (hStarts : (calls i).StartsInformer lib) : (b.state n).Started ((calls i).gvr lib) := by
  have hOk := (callInvariant_state hFair n).phase i
  cases hPhase : (b.state n).phase i with
  | returned err =>
    rw [hPhase] at hOk
    exact hOk hStarts
  | idle | waiting | syncing | dispatching =>
    rw [hPhase] at hReturned
    exact hReturned.elim

end Returns

/-
  In a fair run every registration returns and every listable resource gets its informer exactly
  when no registration asks for a resource that cannot be listed.
-/
theorem registrations_progress_iff (hFair : FairRegistrations lib listable calls b) :
    AllReturn b ∧ InformersRun b ↔ OnlyListable b := by
  constructor
  · rintro ⟨hReturn, _⟩ i n hBegun hStarts
    rcases hReturn i n hBegun with ⟨m, _, hReturned⟩
    exact (callInvariant_state hFair m).started _ (started_of_returned hFair hReturned hStarts)
  · intro hListable
    have hReturn := allReturn_of_onlyListable hFair hListable
    refine ⟨hReturn, ?_⟩
    intro i n hBegun hStarts _
    rcases hReturn i n hBegun with ⟨m, hM, hReturned⟩
    exact ⟨m, hM, started_of_returned hFair hReturned hStarts⟩

theorem fairRegistrations_ofList {e : Engine} {labels : List (InformerLabel ι)}
    (hEnd : Run.exec (InformerState.step lib listable calls) (InformerState.start ι e) labels = s)
    (hAcquire : ∀ i, ¬ s.Enabled listable (.acquire i))
    (hSynced : ∀ i, ¬ s.Enabled listable (.synced i))
    (hFinish : ∀ i, ¬ s.Enabled listable (.finish i)) : FairRegistrations lib listable calls
      (Fair.ofList (InformerState.step lib listable calls)
        (InformerState.start ι e) labels .tick) := by
  have hState : ∀ m ≥ labels.length,
        (Fair.ofList (InformerState.step lib listable calls)
          (InformerState.start ι e) labels .tick).state m = s :=
    fun m hM =>
      (Fair.ofList_state_of_le (fun _ => rfl) hM).trans hEnd
  refine ⟨⟨e, rfl⟩, ?_, ?_, ?_⟩
  · exact fun i =>
      Fair.weak_of_halted (fun m hM => (hState m hM).symm ▸ hSynced i)
  · exact fun i =>
      Fair.weak_of_halted (fun m hM => (hState m hM).symm ▸ hFinish i)
  · exact fun i =>
      Fair.strong_of_halted (fun m hM => (hState m hM).symm ▸ hAcquire i)

end Progress

----
-- A Kind That Cannot Be Listed
----

/- Only deployments are served. -/
def deploymentsOnly (gvr : GroupVersionResource) : Bool :=
  gvr.resource = "deployments"

def widgetProfile : KollectProfile where
  name := "widgets"
  generation := 1
  annotations := ∅
  spec := ⟨⟨"example.dev", "v1", "Widget"⟩, []⟩

def twoCalls : Bool → RegisterCall
  | true =>
    ⟨targetIncluding [("team-a" : Text)], deploymentProfile, noOptions, none⟩
  | false =>
    ⟨targetIncluding [("prod" : Text)], widgetProfile, noOptions, none⟩

/- The unserved kind gets the mutex first. -/
def blockedRun : Registrations Libraries.plain deploymentsOnly twoCalls :=
  Fair.ofList _
    (InformerState.start Bool (Engine.fresh twoNamespaces))
    [.begin_ false, .acquire false, .begin_ true] .tick

def blockedState : InformerState Bool :=
  Run.exec
    (InformerState.step Libraries.plain deploymentsOnly twoCalls)
    (InformerState.start Bool (Engine.fresh twoNamespaces))
    [.begin_ false, .acquire false, .begin_ true]

theorem blockedRun_state {n : Nat} (hLe : 3 ≤ n) : blockedRun.state n = blockedState :=
  Fair.ofList_state_of_le (fun _ => rfl) hLe

/- The run is fair, and the registration of deployments neither returns nor gets its informer. -/
theorem unlistable_kind_blocks_registration :
    FairRegistrations Libraries.plain deploymentsOnly twoCalls
        blockedRun ∧ ¬ AllReturn blockedRun ∧ ¬ InformersRun blockedRun := by
  have hWidgets : blockedState.phase false = .syncing ⟨"example.dev", "v1", "widgets"⟩ "prod" := rfl
  have hDeployments : blockedState.phase true = .waiting ⟨"apps", "v1", "deployments"⟩ true := rfl
  have hMu : blockedState.informerMu = some false := rfl
  refine ⟨?_, ?_, ?_⟩
  · refine fairRegistrations_ofList (s := blockedState) rfl ?_ ?_ ?_
    · rintro i ⟨_, hFree⟩
      rw [hMu] at hFree
      cases hFree
    · rintro (_ | _) ⟨gvr, scope, hPhase, hListable⟩
      · rw [hWidgets] at hPhase
        cases hPhase
        exact absurd hListable (by decide)
      · rw [hDeployments] at hPhase
        cases hPhase
    · rintro (_ | _) ⟨redispatch, hPhase⟩
      · rw [hWidgets] at hPhase
        cases hPhase
      · rw [hDeployments] at hPhase
        cases hPhase
  · intro hReturn
    rcases hReturn true 3
      (by rw [blockedRun_state (le_refl 3), hDeployments]
          trivial) with ⟨m, hM, hReturned⟩
    rw [blockedRun_state hM, hDeployments] at hReturned
    exact hReturned
  · intro hRun
    rcases hRun true 3
      (by rw [blockedRun_state (le_refl 3), hDeployments]
          trivial)
      ⟨rfl, [], rfl⟩ (by decide) with ⟨m, hM, hStarted⟩
    rw [blockedRun_state hM] at hStarted
    exact Bool.false_ne_true hStarted

/-
  Two calls for deployments. The second begins before the first has the mutex, and finds the
  informer that the first has started.
-/
def servedCalls (second : Bool) : RegisterCall :=
  ⟨targetIncluding [if second then ("team-a" : Text) else "prod"], deploymentProfile, noOptions,
    none⟩

def servedLabels : List (InformerLabel Bool) :=
  [.begin_ false, .begin_ true, .acquire false, .synced false, .finish false, .acquire true,
    .finish true]

def servedRun : Registrations Libraries.plain deploymentsOnly servedCalls :=
  Fair.ofList _ (InformerState.start Bool (Engine.fresh twoNamespaces)) servedLabels .tick

theorem served_kind_registers :
    FairRegistrations Libraries.plain deploymentsOnly servedCalls servedRun ∧
      AllReturn servedRun ∧ InformersRun servedRun := by
  have hReturned : ∀ i, (Run.exec (InformerState.step Libraries.plain deploymentsOnly servedCalls)
      (InformerState.start Bool (Engine.fresh twoNamespaces)) servedLabels).phase i =
        .returned none := by
    rintro (_ | _) <;> rfl
  have hFair : FairRegistrations Libraries.plain deploymentsOnly servedCalls servedRun := by
    refine fairRegistrations_ofList rfl ?_ ?_ ?_
    · rintro i ⟨⟨gvr, backfill, hPhase⟩, _⟩
      rw [hReturned] at hPhase
      cases hPhase
    · rintro i ⟨gvr, scope, hPhase, _⟩
      rw [hReturned] at hPhase
      cases hPhase
    · rintro i ⟨redispatch, hPhase⟩
      rw [hReturned] at hPhase
      cases hPhase
  refine ⟨hFair, (registrations_progress_iff hFair).mpr ?_⟩
  exact fun _ _ _ _ => rfl

end Collect

end Kollect
