import Kollect.Collect.Snapshot
import Kollect.Controller.Debounce

/-
  The fingerprint of a namespace, and the cache that saves computing it (`namespaceFingerprintCache`
  of `controller/kollectinventory_controller.go`).

  A reconcile reads the version of the namespace, looks into the cache, computes on a miss and saves
  what it computed under the version it read. The store goes on between any two of these steps, and
  other reconciles do. One that is alone does what a pass of `Kollect.Controller.Debounce` does.

  The stores of a run are kept, so that one can say at which moments the namespace had a content.

  Key theorems include:
    * `CacheRun.getOrCompute_agrees`
    * `CacheRun.sound_step`
    * `CacheRun.fresh_iff_unspoiled`
-/

namespace Kollect
namespace Controller

open Collect Export

----
-- Reconciles And The Store
----

structure NamespaceFingerprintEntry where
  version : Nat
  fingerprint : Text

/- How far a reconcile is; `start` is when it read the version. -/
inductive ReconcilePhase where
  | idle
  | read (start version : Nat)
  | missed (start version : Nat)
  | computed (start version : Nat) (result : Except Text Text)
  | goesOn (start stop : Nat) (fingerprint : Text)
  | failed (err : Text)

/- One namespace's reconciles. `stores` are the stores up to now, which is `clock`. -/
structure CacheRun where
  clock : Nat
  stores : Nat → Store
  cache : GoMap Text NamespaceFingerprintEntry
  phases : Nat → ReconcilePhase

/- What can happen next. A walk over the store is in an order of its own each time. -/
inductive CacheEvent where
  | mutate (m : Store.Mutation)
  | readVersion (i : Nat)
  | look (i : Nat)
  | compute (i : Nat) (order : List Item → List Item) (perm : ∀ items, (order items).Perm items)
  | save (i : Nat)

namespace CacheRun

section Steps

variable (sha : Digest) (ns : Text)

def start (store : Store) : CacheRun := ⟨0, fun _ => store, ∅, fun _ => .idle⟩

variable (s : CacheRun)

def store : Store := s.stores s.clock

def setPhase (i : Nat) (phase : ReconcilePhase) : CacheRun :=
  { s with phases := Function.update s.phases i phase }

/- What `getOrCompute` finds under its first lock: the entry, if it is of the version. -/
def hit? (version : Nat) : Option Text :=
  match s.cache.lookup ns with
  | none => none
  | some entry =>
    if entry.version = version then some entry.fingerprint
    else none

/- The fingerprint that is saved when there is an error. -/
def savedText : Except Text Text → Text
  | .error _ => []
  | .ok fingerprint => fingerprint

/- What the reconcile does with a computed fingerprint. -/
def afterCompute (start : Nat) : Except Text Text → ReconcilePhase
  | .error err => .failed err
  | .ok fingerprint => .goesOn start s.clock fingerprint

def step : CacheEvent → CacheRun
  | .mutate m =>
    { s with
      clock := s.clock + 1
      stores := Function.update s.stores (s.clock + 1) (s.store.mutate m) }
  | .readVersion i =>
    match s.phases i with
    | .idle => s.setPhase i (.read s.clock (s.store.namespaceVersion ns))
    | _ => s
  | .look i =>
    match s.phases i with
    | .read start version =>
      match s.hit? ns version with
      | some fingerprint => s.setPhase i (.goesOn start s.clock fingerprint)
      | none => s.setPhase i (.missed start version)
    | _ => s
  | .compute i order _ =>
    match s.phases i with
    | .missed start version =>
      s.setPhase i
        (.computed start version (tryItemsFingerprint sha (order (s.store.snapshotNamespace ns))))
    | _ => s
  | .save i =>
    match s.phases i with
    | .computed start version result =>
      { s.setPhase i (afterCompute s start result) with
        cache := s.cache.insert ns ⟨version, savedText result⟩ }
    | _ => s

/- The text is the fingerprint of the content at a moment. -/
def Fingerprints (k : Nat) (fingerprint : Text) : Prop :=
  ∃ items,
    items.Perm ((s.stores k).snapshotNamespace ns) ∧ tryItemsFingerprint sha items = .ok fingerprint

/-
  A reconcile that goes on now has the fingerprint of a content that the namespace had since it read
  the version.
-/
def FreshStep (e : CacheEvent) : Prop :=
  ∀ i start stop fingerprint, (s.step sha ns e).phases i = .goesOn start stop fingerprint →
    s.phases i ≠ .goesOn start stop fingerprint →
      ∃ k, start ≤ k ∧ k ≤ stop ∧ (s.step sha ns e).Fingerprints sha ns k fingerprint

/- A reconcile that finds an entry does not find the one of a computation that failed. -/
def Unspoiled : CacheEvent → Prop
  | .look i => ∀ start version, s.phases i = .read start version → s.hit? ns version ≠ some []
  | _ => True

end Steps

----
-- One Reconcile By Itself
----

/- The entry that a pass of `Kollect.Controller.Debounce` keeps, without its items. -/
def entryOf (entry : FingerprintEntry Text) : NamespaceFingerprintEntry :=
  ⟨entry.version, entry.fingerprint⟩

/-
  A reconcile that nothing interrupts, and whose rows can be written, ends with the fingerprint of
  such a pass and leaves its entry.
-/
theorem getOrCompute_agrees {sha : Digest} {ns : Text} {fingerprint : List Item → Text}
    {s : CacheRun} {p : ExportPass Text} (b : BindingState) (i : Nat)
    (hStore : s.store = p.store) (hCache : s.cache.lookup ns = p.cache.map entryOf)
    (hIdle : s.phases i = .idle) (hPhase : p.phase = .idle)
    (hOk : tryItemsFingerprint sha (p.store.snapshotNamespace ns) =
      .ok (fingerprint (p.store.snapshotNamespace ns))) :
    let s' := Run.exec (step sha ns) s
      [.readVersion i, .look i, .compute i id List.Perm.refl, .save i]
    let p' := Run.exec (ExportPass.step fingerprint ns b) p [.begin_, .compute]
    s'.cache.lookup ns = p'.cache.map entryOf ∧
      ∃ start stop q, s'.phases i = .goesOn start stop q.fingerprint ∧ p'.phase = .ready q := by
  have hStore' : s.stores s.clock = p.store := hStore
  simp only [Run.exec_cons, Run.exec_nil, step, ExportPass.step, setPhase, hit?, store, hIdle,
    hPhase, hStore', hCache, ExportPass.getOrCompute, Function.update_self]
  cases hEntry : p.cache with
  | none =>
    simp only [Option.map_none, Function.update_self, id, hOk, hStore', afterCompute, savedText,
      AList.lookup_insert]
    exact ⟨rfl, _, _, _, rfl, rfl⟩
  | some entry =>
    simp only [Option.map_some, entryOf]
    split_ifs with hVersion
    · simp only [Function.update_self, hCache, hEntry]
      exact ⟨trivial, _, _, _, rfl, rfl⟩
    · simp only [Function.update_self, id, hOk, hStore', afterCompute, savedText,
        AList.lookup_insert]
      exact ⟨rfl, _, _, _, rfl, rfl⟩

----
-- What The Cache Holds
----

section Sound

variable {sha : Digest} {ns : Text}

/- The version of the namespace at a moment. -/
def versionAt (s : CacheRun) (ns : Text) (k : Nat) : Nat := (s.stores k).namespaceVersion ns

/- What a reconcile has read, computed and gone on with. -/
def PhaseSound (sha : Digest) (ns : Text) (s : CacheRun) : ReconcilePhase → Prop
  | .idle => True
  | .read start version => start ≤ s.clock ∧ s.versionAt ns start = version
  | .missed start version => start ≤ s.clock ∧ s.versionAt ns start = version
  | .computed start version result => start ≤ s.clock ∧ s.versionAt ns start = version ∧
      ∀ fingerprint, result = .ok fingerprint →
        ∃ k, start ≤ k ∧ k ≤ s.clock ∧ s.Fingerprints sha ns k fingerprint
  | .goesOn start stop fingerprint => stop ≤ s.clock ∧
      (fingerprint ≠ [] → ∃ k, start ≤ k ∧ k ≤ stop ∧ s.Fingerprints sha ns k fingerprint)
  | .failed _ => True

/-
  The store moved with its counter, and an entry has the fingerprint of a content that is not older
  than its version.
-/
structure Sound (sha : Digest) (ns : Text) (s : CacheRun) : Prop where
  counted : Run.Counted (fun store : Store => store.namespaceVersion ns)
    (fun store : Store => store.shard ns) s.stores s.clock
  entry : ∀ entry, s.cache.lookup ns = some entry → entry.fingerprint ≠ [] →
      ∃ k ≤ s.clock, entry.version ≤ s.versionAt ns k ∧ s.Fingerprints sha ns k entry.fingerprint
  phases : ∀ i, PhaseSound sha ns s (s.phases i)

theorem sound_start (store : Store) : Sound sha ns (start store) where
  counted k hk := absurd hk (Nat.not_lt_zero k)
  entry _ hLook := nomatch hLook
  phases _ := trivial

variable {s : CacheRun} {k : Nat} {fingerprint : Text}

theorem Fingerprints.of_shard_eq {n : Nat} (hSame : (s.stores k).shard ns = (s.stores n).shard ns)
    (hPrint : s.Fingerprints sha ns k fingerprint) : s.Fingerprints sha ns n fingerprint := by
  rcases hPrint with ⟨items, hPerm, hOk⟩
  refine ⟨items, ?_, hOk⟩
  unfold Store.snapshotNamespace at hPerm ⊢
  rw [← hSame]
  exact hPerm

/-
  A hit is fresh: the content of the entry came after the version was read, or the namespace is as
  it was then.
-/
theorem Sound.hit {s : CacheRun} (hSound : Sound sha ns s)
    {start version : Nat} (hStart : start ≤ s.clock)
    (hVersion : s.versionAt ns start = version) {fingerprint : Text}
    (hHit : s.hit? ns version = some fingerprint) (hNe : fingerprint ≠ []) :
    ∃ k, start ≤ k ∧ k ≤ s.clock ∧ s.Fingerprints sha ns k fingerprint := by
  unfold hit? at hHit
  split at hHit
  · cases hHit
  · rename_i entry hEntry
    split_ifs at hHit with hSame
    cases hHit
    rcases hSound.entry entry hEntry hNe with ⟨k, hK, hAge, hPrint⟩
    by_cases hLater : start ≤ k
    · exact ⟨k, hLater, hK, hPrint⟩
    · rcases hSound.counted.le_and_eq (Nat.le_of_not_le hLater) hStart with ⟨hLe, hEq⟩
      have hCount : s.versionAt ns k = s.versionAt ns start := by
        refine Nat.le_antisymm hLe ?_
        rw [hVersion, ← hSame]
        exact hAge
      exact ⟨start, Nat.le_refl _, hStart, hPrint.of_shard_eq (hEq hCount)⟩

/- Nothing that was said of the past changes. -/
structure Extends (s s' : CacheRun) : Prop where
  clock : s.clock ≤ s'.clock
  stores : ∀ k ≤ s.clock, s'.stores k = s.stores k

variable {s' : CacheRun}

theorem Extends.fingerprints (hExt : Extends s s') (hK : k ≤ s.clock)
    (hPrint : s.Fingerprints sha ns k fingerprint) : s'.Fingerprints sha ns k fingerprint := by
  unfold Fingerprints at hPrint ⊢
  rw [hExt.stores k hK]
  exact hPrint

theorem Extends.versionAt (hExt : Extends s s') (hK : k ≤ s.clock) :
    s'.versionAt ns k = s.versionAt ns k := by
  unfold CacheRun.versionAt
  rw [hExt.stores k hK]

variable {phase : ReconcilePhase}

theorem Extends.phaseSound (hExt : Extends s s') (hPhase : PhaseSound sha ns s phase) :
    PhaseSound sha ns s' phase := by
  have hClock := hExt.clock
  cases phase with
  | idle | failed => trivial
  | read | missed =>
    rcases hPhase with ⟨hStart, hVersion⟩
    exact ⟨hStart.trans hClock, (hExt.versionAt hStart).trans hVersion⟩
  | computed start version result =>
    rcases hPhase with ⟨hStart, hVersion, hResult⟩
    refine ⟨hStart.trans hClock, (hExt.versionAt hStart).trans hVersion, ?_⟩
    intro fingerprint hOk
    rcases hResult fingerprint hOk with ⟨k, hLow, hHigh, hPrint⟩
    exact ⟨k, hLow, hHigh.trans hClock, hExt.fingerprints hHigh hPrint⟩
  | goesOn start stop fingerprint =>
    rcases hPhase with ⟨hStop, hFresh⟩
    refine ⟨hStop.trans hClock, fun hNe => ?_⟩
    rcases hFresh hNe with ⟨k, hLow, hHigh, hPrint⟩
    exact ⟨k, hLow, hHigh, hExt.fingerprints (hHigh.trans hStop) hPrint⟩

theorem Sound.setPhase (hSound : Sound sha ns s) (i : Nat) (hPhase : PhaseSound sha ns s phase) :
    Sound sha ns (s.setPhase i phase) := by
  refine ⟨hSound.counted, hSound.entry, fun j => ?_⟩
  change PhaseSound sha ns s (Function.update s.phases i phase j)
  by_cases hJ : j = i
  · subst hJ
    rw [Function.update_self]
    exact hPhase
  · rw [Function.update_of_ne hJ]
    exact hSound.phases j

theorem sound_mutate (hSound : Sound sha ns s) (m : Store.Mutation) :
    Sound sha ns (s.step sha ns (.mutate m)) := by
  have hExt : Extends s (s.step sha ns (.mutate m)) := by
    refine ⟨Nat.le_succ _, fun k hK => ?_⟩
    exact Function.update_of_ne (by omega) _ _
  refine ⟨?_, ?_, fun i => hExt.phaseSound (hSound.phases i)⟩
  · intro k hK
    change k < s.clock + 1 at hK
    rcases Nat.lt_succ_iff_lt_or_eq.mp hK with hOld | rfl
    · rw [hExt.stores k (by omega), hExt.stores (k + 1) hOld]
      exact hSound.counted k hOld
    · have hNew : (s.step sha ns (.mutate m)).stores (s.clock + 1) = s.store.mutate m :=
        Function.update_self _ _ _
      rw [hExt.stores s.clock (Nat.le_refl _), hNew]
      exact Store.mutate_cases s.store m ns
  · intro entry hEntry hNe
    rcases hSound.entry entry hEntry hNe with ⟨k, hK, hAge, hPrint⟩
    refine ⟨k, hK.trans hExt.clock, ?_, hExt.fingerprints hK hPrint⟩
    rw [hExt.versionAt hK]
    exact hAge

theorem sound_step (s : CacheRun) (e : CacheEvent) (hSound : Sound sha ns s) :
    Sound sha ns (s.step sha ns e) := by
  cases e with
  | mutate m => exact sound_mutate hSound m
  | readVersion i =>
    unfold step
    dsimp only
    split
    · exact hSound.setPhase i ⟨Nat.le_refl _, rfl⟩
    · exact hSound
  | look i =>
    have hPhase := hSound.phases i
    unfold step
    dsimp only
    split
    · rename_i start version hRead
      rw [hRead] at hPhase
      split
      · rename_i fingerprint hHit
        exact hSound.setPhase i ⟨Nat.le_refl _, hSound.hit hPhase.1 hPhase.2 hHit⟩
      · exact hSound.setPhase i hPhase
    · exact hSound
  | compute i order perm =>
    have hPhase := hSound.phases i
    unfold step
    dsimp only
    split
    · rename_i start version hMissed
      rw [hMissed] at hPhase
      refine hSound.setPhase i ⟨hPhase.1, hPhase.2, ?_⟩
      intro fingerprint hOk
      exact ⟨s.clock, hPhase.1, Nat.le_refl _, _, perm _, hOk⟩
    · exact hSound
  | save i =>
    have hPhase := hSound.phases i
    unfold step
    dsimp only
    split
    · rename_i start version result hComputed
      rw [hComputed] at hPhase
      rcases hPhase with ⟨hStart, hVersion, hResult⟩
      have hAfter : PhaseSound sha ns s (afterCompute s start result) := by
        cases result with
        | error err => trivial
        | ok fingerprint => exact ⟨Nat.le_refl _, fun _ => hResult _ rfl⟩
      have hSet := hSound.setPhase i hAfter
      refine ⟨hSet.counted, ?_, hSet.phases⟩
      intro entry hEntry hNe
      rw [GoMap.lookup_insert_ite, if_pos rfl] at hEntry
      cases hEntry
      cases result with
      | error err => exact absurd rfl hNe
      | ok fingerprint =>
        -- the content is not older than the version
        rcases hResult fingerprint rfl with ⟨k, hLow, hHigh, hPrint⟩
        refine ⟨k, hHigh, ?_, hPrint⟩
        have hLe := (hSound.counted.le_and_eq hLow hHigh).1
        rw [← hVersion]
        exact hLe
    · exact hSound

----
-- Going On
----

theorem phases_setPhase (s : CacheRun) (i j : Nat) (phase : ReconcilePhase) :
    (s.setPhase i phase).phases j = if j = i then phase else s.phases j := by
  exact Function.update_apply _ _ _ _

/- A reconcile goes on with a hit or with what it computed. -/
theorem goesOn_cases {e : CacheEvent} {i start stop : Nat}
    (hNow : (s.step sha ns e).phases i = .goesOn start stop fingerprint)
    (hBefore : s.phases i ≠ .goesOn start stop fingerprint) :
    (e = .look i ∧ ∃ version, s.phases i = .read start version ∧
      s.hit? ns version = some fingerprint) ∨
    ∃ version, s.phases i = .computed start version (.ok fingerprint) := by
  cases e with
  | mutate m => exact absurd hNow hBefore
  | readVersion | compute =>
    unfold step at hNow
    dsimp only at hNow
    split at hNow
    · rw [phases_setPhase] at hNow
      split_ifs at hNow
      exact absurd hNow hBefore
    · exact absurd hNow hBefore
  | look j =>
    unfold step at hNow
    dsimp only at hNow
    split at hNow
    · rename_i start' version hRead
      split at hNow
      · rename_i fingerprint' hHit
        rw [phases_setPhase] at hNow
        split_ifs at hNow with hI
        · subst hI
          cases hNow
          exact .inl ⟨rfl, version, hRead, hHit⟩
        · exact absurd hNow hBefore
      · rw [phases_setPhase] at hNow
        split_ifs at hNow
        exact absurd hNow hBefore
    · exact absurd hNow hBefore
  | save j =>
    unfold step at hNow
    dsimp only at hNow
    split at hNow
    · rename_i start' version result hComputed
      rw [phases_setPhase] at hNow
      split_ifs at hNow with hI
      · subst hI
        cases result with
        | error err => cases hNow
        | ok fingerprint' =>
          cases hNow
          exact .inr ⟨version, hComputed⟩
      · exact absurd hNow hBefore
    · exact absurd hNow hBefore

theorem ne_nil_of_fingerprints (hPrint : s.Fingerprints sha ns k fingerprint) :
    fingerprint ≠ [] := by
  rcases hPrint with ⟨items, -, hOk⟩
  exact ne_nil_of_tryItemsFingerprint hOk

theorem freshStep_iff (hSound : Sound sha ns s) (e : CacheEvent) :
    FreshStep sha ns s e ↔ Unspoiled ns s e := by
  constructor
  · intro hFresh
    cases e with
    | look i =>
      intro start version hRead hHit
      have hNow : (s.step sha ns (.look i)).phases i = .goesOn start s.clock [] := by
        unfold step
        dsimp only
        rw [hRead]
        dsimp only
        rw [hHit]
        exact (phases_setPhase _ _ _ _).trans (if_pos rfl)
      rcases hFresh i start s.clock [] hNow (by rw [hRead]; simp) with ⟨k, -, -, hPrint⟩
      exact ne_nil_of_fingerprints hPrint rfl
    | _ => trivial
  · intro hUnspoiled i start stop fingerprint hNow hBefore
    have hPhase := (sound_step s e hSound).phases i
    rw [hNow] at hPhase
    refine hPhase.2 ?_
    rcases goesOn_cases hNow hBefore with ⟨rfl, version, hRead, hHit⟩ | ⟨version, hComputed⟩
    · intro hNil
      exact hUnspoiled start version hRead (hNil ▸ hHit)
    · have hOld := hSound.phases i
      rw [hComputed] at hOld
      rcases hOld.2.2 fingerprint rfl with ⟨k, -, -, hPrint⟩
      exact ne_nil_of_fingerprints hPrint

/-
  Reconciles go on with fresh fingerprints for as long as none finds what a failed computation has
  left in the cache.
-/
theorem fresh_iff_unspoiled (sha : Digest) (ns : Text) (store : Store) (events : List CacheEvent) :
    Run.Along (step sha ns) (FreshStep sha ns) (start store) events ↔
      Run.Along (step sha ns) (Unspoiled ns) (start store) events := by
  have hStep : ∀ (s : CacheRun) e, Sound sha ns s → Sound sha ns (s.step sha ns e) := sound_step
  exact Run.along_congr hStep (fun _ e hSound => freshStep_iff hSound e) (sound_start store) events

/- A row with a number that cannot be written. -/
def unwritableRow : Item where
  targetNamespace := ("n" : Text)
  targetName := ("t" : Text)
  namespace_ := ("n" : Text)
  name := ("a" : Text)
  group := []
  version := ("v1" : Text)
  kind := ("Pod" : Text)
  uid := ("1" : Text)
  attributes := GoMap.ofList [(("load" : Text), .float "NaN")]

/- One reconcile fails and the next one hits. -/
def failedThenHit : List CacheEvent :=
  [.readVersion 0, .look 0, .compute 0 id List.Perm.refl, .save 0, .readVersion 1, .look 1]

/- The second reconcile goes on with an empty fingerprint, which no content has. -/
theorem failed_computation_is_served : ¬ Run.Along (step paddedDigest ("n" : Text))
      (FreshStep paddedDigest ("n" : Text)) (start (Store.empty.upsert unwritableRow))
      failedThenHit := by
  rintro ⟨-, -, -, -, -, hLast, -⟩
  -- it has read the version, and the entry is of that version
  have hBefore : ∀ phase : ReconcilePhase, phase = .read 0 1 → phase ≠ .goesOn 0 0 [] := by
    rintro phase rfl hEq
    cases hEq
  rcases hLast 1 0 0 [] rfl (hBefore _ rfl) with ⟨k, -, -, hPrint⟩
  exact ne_nil_of_fingerprints hPrint rfl

end Sound

end CacheRun
end Controller
end Kollect
