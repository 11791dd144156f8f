import Kollect.Collect.Informer

/-
  The registry of targets under registrations and unregistrations: what each call leaves under a
  key, and that every state is found under the key of its target.

  Key theorems include:
    * `keyed_outcome`
    * `indexExact_after_calls`
-/

namespace Kollect
namespace Collect

def Keyed (e : Engine) : Prop := ∀ key st, e.targets.lookup key = some st → key = keyOf st.target

----
-- Unregistration
----

section Unregistration

variable (lib : Libraries) (e : Engine)

theorem lookup_unregisterLocked (gone key : Text) :
    (unregisterLocked lib e gone).targets.lookup key =
      if key = gone then none else e.targets.lookup key := by
  rcases e.unindexRegistered_eq lib gone with ⟨index, hIndex⟩
  unfold unregisterLocked
  rw [hIndex]
  exact GoMap.lookup_erase_ite _ _ _

theorem store_unregisterLocked (gone : Text) : (unregisterLocked lib e gone).store = e.store := by
  rcases e.unindexRegistered_eq lib gone with ⟨index, hIndex⟩
  unfold unregisterLocked
  rw [hIndex]

theorem nsMeta_unregisterLocked (gone : Text) :
    (unregisterLocked lib e gone).nsMeta = e.nsMeta := by
  rcases e.unindexRegistered_eq lib gone with ⟨index, hIndex⟩
  unfold unregisterLocked
  rw [hIndex]

theorem keyed_unregisterLocked {e : Engine} (hKeyed : Keyed e) (gone : Text) :
    Keyed (unregisterLocked lib e gone) := by
  intro key st hLookup
  rw [lookup_unregisterLocked] at hLookup
  split_ifs at hLookup
  exact hKeyed key st hLookup

theorem lookup_unregisterTarget (ns name key : Text) :
    (unregisterTarget lib e ns name).targets.lookup key =
      if key = targetKey ns name then none
      else e.targets.lookup key :=
  lookup_unregisterLocked lib e (targetKey ns name) key

theorem store_unregisterTarget (ns name : Text) :
    (unregisterTarget lib e ns name).store = e.store.removeTarget ns name := by
  rw [← store_unregisterLocked lib e (targetKey ns name)]
  rfl

theorem keyed_unregisterTarget {e : Engine} (hKeyed : Keyed e) (ns name : Text) :
    Keyed (unregisterTarget lib e ns name) :=
  keyed_unregisterLocked lib hKeyed (targetKey ns name)

end Unregistration

----
-- Registration
----

namespace RegisterCall

variable (lib : Libraries) (e : Engine) (call : RegisterCall)

def outcome : RegisterOutcome := registerTarget lib e call.target call.profile call.opts call.listed

def key : Text := keyOf call.target

def registeredState : Option TargetState := (call.outcome lib e).engine.targets.lookup call.key

/-
  The three ends of a call: the target is unregistered, nothing changes, or the lock section
  registers a new state of it.
-/
theorem outcome_locked : call.target.spec.suspend = true ∧ (call.outcome lib e).engine =
        unregisterTarget lib e call.target.namespace_ call.target.name ∨
      (call.outcome lib e).engine = e ∨ ∃ st, st.target = call.target ∧
        (call.outcome lib e).engine = registerLocked lib (registrationCache e call.opts call.listed)
            call.key st := by
  unfold outcome
  cases hSuspend : call.target.spec.suspend with
  | true =>
    left
    unfold registerTarget
    rw [hSuspend]
    exact ⟨rfl, rfl⟩
  | false =>
    right
    cases hRules : compileResourceRules lib call.target.spec.collectionFilter.resourceRules with
    | error err =>
      left
      unfold registerTarget
      rw [hSuspend, hRules]
      rfl
    | ok compiled =>
      right
      unfold registerTarget
      rw [hSuspend, hRules]
      exact ⟨_, rfl, rfl⟩

theorem outcome_cases : call.target.spec.suspend = true ∧ (call.outcome lib e).engine =
        unregisterTarget lib e call.target.namespace_ call.target.name ∨
      (call.outcome lib e).engine = e ∨ ∃ st index, st.target = call.target ∧
        (call.outcome lib e).engine =
          { registrationCache e call.opts call.listed with
            targets := e.targets.insert call.key st
            targetsByGVR := index } := by
  rcases call.outcome_locked lib e with hGone | hSame | ⟨st, hTarget, hNew⟩
  · exact .inl hGone
  · exact .inr (.inl hSame)
  · rcases registerLocked_eq lib (registrationCache e call.opts call.listed) call.key st
      with ⟨index, hIndex⟩
    have hTargets : (registrationCache e call.opts call.listed).targets = e.targets := by
      unfold registrationCache
      split_ifs <;> rfl
    rw [hTargets] at hIndex
    exact .inr (.inr ⟨st, index, hTarget, hNew.trans hIndex⟩)

theorem lookup_outcome_of_ne {key : Text} (hKey : key ≠ call.key) :
    (call.outcome lib e).engine.targets.lookup key = e.targets.lookup key := by
  rcases call.outcome_cases lib e with ⟨-, hGone⟩ | hSame | ⟨st, index, -, hNew⟩
  · rw [hGone, lookup_unregisterTarget]
    exact if_neg hKey
  · rw [hSame]
  · rw [hNew]
    exact AList.lookup_insert_ne hKey

theorem keyed_outcome (hKeyed : Keyed e) : Keyed (call.outcome lib e).engine := by
  rcases call.outcome_cases lib e with ⟨-, hGone⟩ | hSame | ⟨st, index, hTarget, hNew⟩
  · rw [hGone]
    exact keyed_unregisterTarget lib hKeyed _ _
  · rw [hSame]
    exact hKeyed
  · rw [hNew]
    intro key st' hLookup
    rw [GoMap.lookup_insert_ite] at hLookup
    split_ifs at hLookup with hKey
    · rw [← Option.some.inj hLookup, hTarget, hKey]
      rfl
    · exact hKeyed key st' hLookup

variable {after : Engine}

theorem outcome_suspended (hOutcome : call.outcome lib e = .suspended after) :
    after = unregisterTarget lib e call.target.namespace_ call.target.name := by
  unfold outcome registerTarget at hOutcome
  split_ifs at hOutcome
  · exact (RegisterOutcome.suspended.inj hOutcome).symm
  · split at hOutcome <;> cases hOutcome

theorem outcome_invalidRules {err : Text}
    (hOutcome : call.outcome lib e = .invalidRules after err) : after = e := by
  unfold outcome registerTarget at hOutcome
  split_ifs at hOutcome
  split at hOutcome
  · exact (RegisterOutcome.invalidRules.inj hOutcome).1.symm
  · cases hOutcome

theorem mem_keysFor_indexTargetLocked (e : Engine) (key : Text) (gvr : GroupVersionResource) :
    key ∈ (e.indexTargetLocked key gvr).keysFor gvr := by
  unfold Engine.indexTargetLocked
  split_ifs with hMem
  · exact hMem
  · simp [Engine.keysFor]

theorem outcome_registered {gvr : GroupVersionResource} {backfill : Bool}
    (hOutcome : call.outcome lib e = .registered after gvr backfill) :
    after.store = e.store ∧ call.key ∈ after.keysFor gvr ∧
      ∃ st, st.target = call.target ∧ after.targets.lookup call.key = some st := by
  have hIndexed : call.key ∈ after.keysFor gvr := by
    unfold outcome registerTarget at hOutcome
    split_ifs at hOutcome
    split at hOutcome
    · cases hOutcome
    · cases hOutcome
      exact mem_keysFor_indexTargetLocked _ _ _
  have hEngine : (call.outcome lib e).engine = after := by
    rw [hOutcome]
    rfl
  have hTarget := hOutcome
  unfold outcome registerTarget at hTarget
  split_ifs at hTarget with hSuspend
  split at hTarget
  · cases hTarget
  · rename_i compiled hRules
    rcases registerTarget_registered lib e call.target
      call.profile call.opts call.listed
      (Bool.eq_false_iff.mpr hSuspend) hRules with
      ⟨index, hNew⟩
    have hAfter := hEngine.symm.trans hNew
    rw [hAfter]
    refine ⟨?_, hAfter ▸ hIndexed, _, rfl, AList.lookup_insert _⟩
    unfold registrationCache
    split_ifs <;> rfl

end RegisterCall

----
-- The Index
----

/-
  Every state is registered under its own key, and the index lists the key once, under the resource
  of its profile.
-/
structure Indexed (lib : Libraries) (e : Engine) : Prop where
  keyed : Keyed e
  registered :
    ∀ gvr key, key ∈ e.keysFor gvr →
      ∃ st, e.targets.lookup key = some st ∧ gvrFromProfile lib st.profile.spec.targetGVK = gvr
  nodup : ∀ gvr, (e.keysFor gvr).Nodup

section Index

variable {lib : Libraries} {e : Engine}

variable (hIndexed : Indexed lib e)

include hIndexed in
theorem Indexed.congr {e' : Engine} (hTargets : e'.targets = e.targets)
    (hIndex : e'.targetsByGVR = e.targetsByGVR) : Indexed lib e' := by
  have hKeys : e'.keysFor = e.keysFor := by
    funext gvr
    unfold Engine.keysFor
    rw [hIndex]
  refine ⟨?_, ?_, ?_⟩
  · unfold Keyed
    rw [hTargets]
    exact hIndexed.keyed
  · rw [hKeys, hTargets]
    exact hIndexed.registered
  · rw [hKeys]
    exact hIndexed.nodup

theorem keysFor_insert (gvr gvr' : GroupVersionResource) (keys : List Text) :
    ({ e with targetsByGVR := e.targetsByGVR.insert gvr keys } : Engine).keysFor gvr' =
      if gvr' = gvr then keys else e.keysFor gvr' := by
  unfold Engine.keysFor
  rw [GoMap.lookup_insert_ite]
  split_ifs <;> rfl

theorem keysFor_unindexTargetLocked (key : Text) (gvr gvr' : GroupVersionResource) :
    (e.unindexTargetLocked key gvr).keysFor gvr' =
      if gvr' = gvr then (e.keysFor gvr).erase key
      else e.keysFor gvr' := by
  unfold Engine.unindexTargetLocked
  by_cases hMem : key ∈ e.keysFor gvr
  · rw [if_pos hMem, keysFor_insert]
  · rw [if_neg hMem, List.erase_of_not_mem hMem]
    split_ifs with hGvr
    · rw [hGvr]
    · rfl

theorem keysFor_indexTargetLocked (key : Text) (gvr gvr' : GroupVersionResource) :
    (e.indexTargetLocked key gvr).keysFor gvr' =
      if gvr' = gvr ∧ key ∉ e.keysFor gvr then e.keysFor gvr ++ [key]
      else e.keysFor gvr' := by
  unfold Engine.indexTargetLocked
  by_cases hMem : key ∈ e.keysFor gvr
  · rw [if_pos hMem, if_neg (fun hBoth => hBoth.2 hMem)]
  · rw [if_neg hMem, keysFor_insert]
    by_cases hGvr : gvr' = gvr
    · rw [if_pos hGvr, if_pos ⟨hGvr, hMem⟩]
    · rw [if_neg hGvr, if_neg (fun hBoth => hGvr hBoth.1)]

include hIndexed in
theorem keysFor_unindexRegistered (key : Text) (gvr : GroupVersionResource) :
    (e.unindexRegistered lib key).keysFor gvr = (e.keysFor gvr).erase key := by
  have hAbsent : ∀ gvr, (∀ st,
      e.targets.lookup key = some st → gvrFromProfile lib st.profile.spec.targetGVK ≠ gvr) →
      (e.keysFor gvr).erase key = e.keysFor gvr := by
    intro gvr hOther
    refine List.erase_of_not_mem fun hMem => ?_
    rcases hIndexed.registered gvr key hMem with ⟨st, hLookup, hGvr⟩
    exact hOther st hLookup hGvr
  unfold Engine.unindexRegistered
  cases hLookup : e.targets.lookup key with
  | none =>
    refine (hAbsent gvr fun st hSome => ?_).symm
    rw [hLookup] at hSome
    cases hSome
  | some st =>
    rw [keysFor_unindexTargetLocked]
    split_ifs with hGvr
    · rw [hGvr]
    · refine (hAbsent gvr fun st' hSome => ?_).symm
      rw [← Option.some.inj (hLookup.symm.trans hSome)]
      exact Ne.symm hGvr

include hIndexed in
theorem mem_keysFor_unindexRegistered {key key' : Text} {gvr : GroupVersionResource} :
    key' ∈ (e.unindexRegistered lib key).keysFor gvr ↔ key' ≠ key ∧ key' ∈ e.keysFor gvr := by
  rw [keysFor_unindexRegistered hIndexed]
  exact (hIndexed.nodup gvr).mem_erase_iff

include hIndexed in
theorem indexed_unregisterLocked (gone : Text) : Indexed lib (unregisterLocked lib e gone) := by
  have hKeys : ∀ gvr,
      (unregisterLocked lib e gone).keysFor gvr = (e.unindexRegistered lib gone).keysFor gvr :=
    fun gvr => rfl
  refine ⟨keyed_unregisterLocked lib hIndexed.keyed gone, ?_, ?_⟩
  · intro gvr key hMem
    rw [hKeys, mem_keysFor_unindexRegistered hIndexed] at hMem
    rw [lookup_unregisterLocked, if_neg hMem.1]
    exact hIndexed.registered gvr key hMem.2
  · intro gvr
    rw [hKeys, keysFor_unindexRegistered hIndexed]
    exact (hIndexed.nodup gvr).erase gone

theorem targets_registerLocked (lib : Libraries) (e : Engine) (key : Text) (st : TargetState) :
    (registerLocked lib e key st).targets = e.targets.insert key st := by
  rcases registerLocked_eq lib e key st with ⟨index, hIndex⟩
  rw [hIndex]

include hIndexed in
theorem keysFor_registerLocked (key : Text) (st : TargetState) (gvr : GroupVersionResource) :
    (registerLocked lib e key st).keysFor gvr =
      if gvr = gvrFromProfile lib st.profile.spec.targetGVK then (e.keysFor gvr).erase key ++ [key]
      else (e.keysFor gvr).erase key := by
  have hNot : key ∉ (e.unindexRegistered lib key).keysFor
      (gvrFromProfile lib st.profile.spec.targetGVK) :=
    fun hMem => ((mem_keysFor_unindexRegistered hIndexed).mp hMem).1 rfl
  rw [← keysFor_unindexRegistered hIndexed]
  refine (keysFor_indexTargetLocked _ _ _).trans ?_
  by_cases hGvr : gvr = gvrFromProfile lib st.profile.spec.targetGVK
  · rw [if_pos ⟨hGvr, hNot⟩, if_pos hGvr, hGvr]
    rfl
  · rw [if_neg (fun hBoth => hGvr hBoth.1), if_neg hGvr]
    rfl

include hIndexed in
theorem mem_keysFor_registerLocked {key key' : Text} {st : TargetState}
    {gvr : GroupVersionResource} :
    key' ∈ (registerLocked lib e key st).keysFor gvr ↔ key' ≠ key ∧ key' ∈ e.keysFor gvr ∨
        key' = key ∧ gvrFromProfile lib st.profile.spec.targetGVK = gvr := by
  rw [keysFor_registerLocked hIndexed, ← (hIndexed.nodup gvr).mem_erase_iff]
  split_ifs with hGvr
  · rw [List.mem_append, List.mem_singleton, hGvr]
    simp
  · simp [Ne.symm hGvr]

include hIndexed in
theorem indexed_registerLocked (st : TargetState) :
    Indexed lib (registerLocked lib e (keyOf st.target) st) := by
  refine ⟨?_, ?_, ?_⟩
  · intro key st' hLookup
    rw [targets_registerLocked, GoMap.lookup_insert_ite] at hLookup
    split_ifs at hLookup with hKey
    · rw [← Option.some.inj hLookup, hKey]
    · exact hIndexed.keyed key st' hLookup
  · intro gvr key hMem
    rw [targets_registerLocked, GoMap.lookup_insert_ite]
    rcases (mem_keysFor_registerLocked hIndexed).mp hMem with ⟨hNe, hBefore⟩ | ⟨hKey, hGvr⟩
    · rw [if_neg hNe]
      exact hIndexed.registered gvr key hBefore
    · rw [if_pos hKey]
      exact ⟨st, rfl, hGvr⟩
  · intro gvr
    have hNodup := (hIndexed.nodup gvr).erase (keyOf st.target)
    rw [keysFor_registerLocked hIndexed]
    split_ifs
    · rw [← List.concat_eq_append]
      exact hNodup.concat (hIndexed.nodup gvr).not_mem_erase
    · exact hNodup

include hIndexed in
theorem indexed_outcome (call : RegisterCall) : Indexed lib (call.outcome lib e).engine := by
  rcases call.outcome_locked lib e with ⟨-, hGone⟩ | hSame | ⟨st, hTarget, hNew⟩
  · rw [hGone]
    exact (indexed_unregisterLocked hIndexed _).congr rfl rfl
  · rw [hSame]
    exact hIndexed
  · have hCache : Indexed lib (registrationCache e call.opts call.listed) := by
      unfold registrationCache
      split_ifs
      · exact hIndexed.congr rfl rfl
      · exact hIndexed
    rw [hNew, RegisterCall.key, ← hTarget]
    exact indexed_registerLocked hCache st

----
-- Every Registered Key Is Listed
----

/- The resource that a key is registered for. -/
def Engine.registeredGvr (lib : Libraries) (e : Engine) (key : Text) :
    Option GroupVersionResource :=
  (e.targets.lookup key).map fun st => gvrFromProfile lib st.profile.spec.targetGVK

def Listed (lib : Libraries) (e : Engine) : Prop :=
  ∀ gvr key, e.registeredGvr lib key = some gvr → key ∈ e.keysFor gvr

/- A key is listed once under its own resource and under no other. -/
def IndexExact (lib : Libraries) (e : Engine) : Prop :=
  ∀ gvr key, (e.keysFor gvr).count key = if e.registeredGvr lib key = some gvr then 1 else 0

include hIndexed

theorem listed_unregisterLocked (hListed : Listed lib e) (gone : Text) :
    Listed lib (unregisterLocked lib e gone) := by
  intro gvr key hGvr
  rw [Engine.registeredGvr, lookup_unregisterLocked] at hGvr
  split_ifs at hGvr with hKey
  · cases hGvr
  · exact (mem_keysFor_unindexRegistered hIndexed).mpr ⟨hKey, hListed gvr key hGvr⟩

theorem listed_registerLocked (hListed : Listed lib e) (key : Text) (st : TargetState) :
    Listed lib (registerLocked lib e key st) := by
  intro gvr key' hGvr
  rw [Engine.registeredGvr, targets_registerLocked, GoMap.lookup_insert_ite] at hGvr
  rw [mem_keysFor_registerLocked hIndexed]
  split_ifs at hGvr with hKey
  · exact .inr ⟨hKey, Option.some.inj hGvr⟩
  · exact .inl ⟨hKey, hListed gvr key' hGvr⟩

theorem listed_outcome (hListed : Listed lib e) (call : RegisterCall) :
    Listed lib (call.outcome lib e).engine := by
  rcases call.outcome_locked lib e with ⟨-, hGone⟩ | hSame | ⟨st, -, hNew⟩
  · rw [hGone]
    exact listed_unregisterLocked hIndexed hListed _
  · rw [hSame]
    exact hListed
  · rw [hNew]
    unfold registrationCache
    split_ifs
    · exact listed_registerLocked (e := e.refreshNamespaceCache call.listed)
        (hIndexed.congr rfl rfl) hListed _ st
    · exact listed_registerLocked hIndexed hListed _ st

end Index

inductive RegistryCall where
  | register (call : RegisterCall)
  | unregister (namespace_ name : Text)

def RegistryCall.step (lib : Libraries) (e : Engine) : RegistryCall → Engine
  | .register call => (call.outcome lib e).engine
  | .unregister ns name => unregisterTarget lib e ns name

/- From an empty registry, the index is exact after every call. -/
theorem indexExact_after_calls (lib : Libraries) (e : Engine) (calls : List RegistryCall) :
    IndexExact lib
      (Run.exec (RegistryCall.step lib) { e with targets := ∅, targetsByGVR := ∅ } calls) := by
  have hStep : ∀ e call, Indexed lib e ∧ Listed lib e →
      Indexed lib (RegistryCall.step lib e call) ∧ Listed lib (RegistryCall.step lib e call) := by
    rintro e call ⟨hIndexed, hListed⟩
    cases call with
    | register call => exact ⟨indexed_outcome hIndexed call, listed_outcome hIndexed hListed call⟩
    | unregister ns name =>
      exact ⟨(indexed_unregisterLocked hIndexed _).congr rfl rfl,
        listed_unregisterLocked hIndexed hListed _⟩
  have hStart : Indexed lib { e with targets := ∅, targetsByGVR := ∅ } ∧
      Listed lib { e with targets := ∅, targetsByGVR := ∅ } := by
    refine ⟨⟨?_, ?_, ?_⟩, ?_⟩ <;> simp [Keyed, Listed, Engine.keysFor, Engine.registeredGvr]
  obtain ⟨hIndexed, hListed⟩ := Run.exec_preserves hStep hStart calls
  intro gvr key
  rw [(hIndexed.nodup gvr).count]
  refine if_congr ⟨fun hMem => ?_, hListed gvr key⟩ rfl rfl
  obtain ⟨st, hLookup, hGvr⟩ := hIndexed.registered gvr key hMem
  rw [Engine.registeredGvr, hLookup, Option.map_some, hGvr]

end Collect
end Kollect
