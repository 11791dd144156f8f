import Kollect.Export.Envelope
import Kollect.Foundation.Run

/-
  The export passes of one inventory to a database or event sink, and when a pass leaves the sink
  alone because nothing changed (`controller/kollectinventory_controller.go`,
  `controller/per_sink_export.go`).

  A pass reads the namespace's version, takes the fingerprint from the cache or from a snapshot, and
  exports a snapshot. When it has no items yet, because the fingerprint was cached or the snapshot
  was empty, it reads them later. Mutations of the store come in between.

  Key theorems include:
    * `skipsDelivered_of_rereadSame`
-/

namespace Kollect
namespace Controller

open Collect Export

----
-- The Debounce Baseline
----

/- The objects an export went to. -/
structure SinkExportIdentity where
  inventoryUID : Text
  sinkUID : Text
  sinkGeneration : Int
deriving DecidableEq

/- What a pass knows of a binding besides the content. -/
structure BindingState where
  identity : SinkExportIdentity
  generation : Int
  requestedAt : Text

/- The last successful export of a binding. -/
structure CoalesceState (F : Type) where
  identity : SinkExportIdentity
  lastExport : Option Int
  lastChecksum : F
  lastGeneration : Int
  lastRequestedAt : Text

section Tracker

variable {F : Type} [DecidableEq F]

/-
  `shouldSkip`. An interval of zero skips unchanged content for ever, any other only until it has
  passed.
-/
def shouldSkip (state : Option (CoalesceState F)) (b : BindingState)
    (checksum : F) (interval now : Int) : Bool :=
  match state with
  | none => false
  | some state =>
    if state.lastGeneration ≠ b.generation then false
    else if state.identity ≠ b.identity then false
    else if state.lastChecksum ≠ checksum then false
    else if state.lastRequestedAt ≠ b.requestedAt then false
    else if interval = 0 then true
    else
      match state.lastExport with
      | none => false
      | some last => now - last < interval

/- The baseline a successful export records. -/
def record (b : BindingState) (checksum : F) (now : Int) : CoalesceState F where
  identity := b.identity
  lastExport := some now
  lastChecksum := checksum
  lastGeneration := b.generation
  lastRequestedAt := b.requestedAt

/- Only the recorded content is skipped. -/
theorem checksum_of_shouldSkip {state : Option (CoalesceState F)} {b : BindingState}
    {checksum : F} {interval now : Int} (hSkip : shouldSkip state b checksum interval now = true) :
    ∃ st, state = some st ∧ st.lastChecksum = checksum := by
  cases state with
  | none => cases hSkip
  | some st =>
    refine ⟨st, rfl, ?_⟩
    unfold shouldSkip at hSkip
    by_contra hNe
    simp [hNe] at hSkip

end Tracker

----
-- Passes
----

/- Two lists of items that are exported alike. -/
def SameItems (a b : List Item) : Prop :=
  (canonicalItems a).map itemJson = (canonicalItems b).map itemJson

/- A cached fingerprint, and the items it is of. -/
structure FingerprintEntry (F : Type) where
  version : Nat
  fingerprint : F
  content : List Item

/-
  A pass under way: the version it read, its fingerprint and the items that it is of, and the items
  it has to export.
-/
structure Pass (F : Type) where
  version : Nat
  fingerprint : F
  compared : List Item
  items : List Item

inductive PassPhase (F : Type) where
  | idle
  | hashing (version : Nat)
  | ready (p : Pass F)
  | reading (p : Pass F)
  | exporting (p : Pass F)

/-
  The store, the fingerprint cache of the namespace, the baseline of the binding and the pass.
  `delivered` is what the last successful export sent; no step reads it.
-/
structure ExportPass (F : Type) where
  store : Store
  cache : Option (FingerprintEntry F)
  baseline : Option (CoalesceState F)
  delivered : Option (List Item)
  phase : PassPhase F

/-
  A pass goes through `begin_`, `compute` on a cache miss, `preview`, `reread` when it has no items,
  and `export_`; it can be abandoned anywhere. The baseline is dropped when a status write fails or
  when it has aged out.
-/
inductive PassLabel where
  | mutate (m : Store.Mutation)
  | begin_
  | compute
  | preview (interval now : Int) (othersDebounced : Bool)
  | reread
  | export_ (interval now : Int)
  | abandon
  | forget

namespace ExportPass

variable {F : Type} [DecidableEq F]

def start (store : Store) : ExportPass F := ⟨store, none, none, none, .idle⟩

/- The phase after the version was read. -/
def getOrCompute (s : ExportPass F) (version : Nat) : PassPhase F :=
  match s.cache with
  | none => .hashing version
  | some entry =>
    if entry.version = version then .ready ⟨version, entry.fingerprint, entry.content, []⟩
    else .hashing version

section Step

variable (fingerprint : List Item → F) (ns : Text) (b : BindingState)

/- A label that is not enabled changes nothing. -/
def step (s : ExportPass F) : PassLabel → ExportPass F
  | .mutate m => { s with store := s.store.mutate m }
  | .begin_ =>
    match s.phase with
    | .idle => { s with phase := s.getOrCompute (s.store.namespaceVersion ns) }
    | _ => s
  | .compute =>
    match s.phase with
    | .hashing version =>
      let items := s.store.snapshotNamespace ns
      { s with
        cache := some ⟨version, fingerprint items, items⟩
        phase := .ready ⟨version, fingerprint items, items, items⟩ }
    | _ => s
  | .preview interval now othersDebounced =>
    match s.phase with
    | .ready p =>
      if shouldSkip s.baseline b p.fingerprint interval now && othersDebounced then
        { s with phase := .idle }
      else if p.items.isEmpty then { s with phase := .reading p }
      else { s with phase := .exporting p }
    | _ => s
  | .reread =>
    match s.phase with
    | .reading p => { s with phase := .exporting { p with items := s.store.snapshotNamespace ns } }
    | _ => s
  | .export_ interval now =>
    match s.phase with
    | .exporting p =>
      if shouldSkip s.baseline b p.fingerprint interval now
      then { s with phase := .idle }
      else
        { s with
          baseline := some (record b p.fingerprint now)
          delivered := some p.items
          phase := .idle }
    | _ => s
  | .abandon => { s with phase := .idle }
  | .forget => { s with baseline := none }

end Step

end ExportPass

----
-- Skipped Content
----

section Properties

variable {F : Type} [DecidableEq F] (ns : Text) (b : BindingState)

/- The last export sent the items. -/
def Delivered (s : ExportPass F) (items : List Item) : Prop :=
  ∃ sent, s.delivered = some sent ∧ SameItems sent items

/-
  When a pass debounces the binding, the last export sent the content whose fingerprint the pass
  compared.
-/
def SkipsDelivered (s : ExportPass F) : PassLabel → Prop
  | .preview interval now _ =>
    ∀ p, s.phase = .ready p → shouldSkip s.baseline b p.fingerprint interval now = true →
      Delivered s p.compared
  | .export_ interval now =>
    ∀ p, s.phase = .exporting p → shouldSkip s.baseline b p.fingerprint interval now = true →
      Delivered s p.compared
  | _ => True

/- Items that are read again are those fingerprinted. -/
def RereadSame (s : ExportPass F) : PassLabel → Prop
  | .reread => ∀ p, s.phase = .reading p → SameItems (s.store.snapshotNamespace ns) p.compared
  | _ => True

end Properties

----
-- What A Pass Knows
----

section Invariants

variable {F : Type} [DecidableEq F] {fingerprint : List Item → F} {ns : Text} {b : BindingState}

/- The fingerprint of a pass is that of its content. -/
def PassHonest (fingerprint : List Item → F) : PassPhase F → Prop
  | .idle => True
  | .hashing _ => True
  | .ready p => p.fingerprint = fingerprint p.compared ∧ (p.items = [] ∨ p.items = p.compared)
  | .reading p => p.fingerprint = fingerprint p.compared
  | .exporting p => p.fingerprint = fingerprint p.compared ∧ SameItems p.items p.compared

/- The baseline and the cache are those of real contents. -/
structure Honest (fingerprint : List Item → F) (s : ExportPass F) : Prop where
  baseline :
    ∀ st, s.baseline = some st →
      ∃ content, st.lastChecksum = fingerprint content ∧ Delivered s content
  cache : ∀ entry, s.cache = some entry → entry.fingerprint = fingerprint entry.content
  pass : PassHonest fingerprint s.phase

theorem SameItems.trans {a b c : List Item} (hFirst : SameItems a b) (hSecond : SameItems b c) :
    SameItems a c :=
  Eq.trans hFirst hSecond

variable {s : ExportPass F}

/- A step that keeps baseline, cache and what was sent. -/
omit [DecidableEq F] in
theorem Honest.setPhase (hHonest : Honest fingerprint s) {phase : PassPhase F}
    (hPass : PassHonest fingerprint phase) : Honest fingerprint { s with phase := phase } :=
  ⟨hHonest.baseline, hHonest.cache, hPass⟩

omit [DecidableEq F] in
theorem passHonest_getOrCompute (hHonest : Honest fingerprint s) (version : Nat) :
    PassHonest fingerprint (s.getOrCompute version) := by
  unfold ExportPass.getOrCompute
  split
  · trivial
  · rename_i entry hEntry
    split_ifs
    · exact ⟨hHonest.cache entry hEntry, Or.inl rfl⟩
    · trivial

theorem honest_preview (hHonest : Honest fingerprint s) (interval now : Int) (others : Bool) :
    Honest fingerprint (s.step fingerprint ns b (.preview interval now others)) := by
  have hPass := hHonest.pass
  cases hPhase : s.phase with
  | ready p =>
    rw [hPhase] at hPass
    rcases hPass with ⟨hPrint, hItems⟩
    simp only [ExportPass.step, hPhase]
    split_ifs with hSkip hEmpty
    · exact hHonest.setPhase trivial
    · exact hHonest.setPhase hPrint
    · apply hHonest.setPhase
      refine ⟨hPrint, ?_⟩
      rcases hItems with hNone | hSame
      · rw [hNone] at hEmpty
        exact absurd rfl hEmpty
      · rw [hSame]
        rfl
  | idle => simp only [ExportPass.step, hPhase]; exact hHonest
  | hashing | reading | exporting =>
    simp only [ExportPass.step, hPhase]
    exact hHonest

theorem honest_export (hHonest : Honest fingerprint s) (interval now : Int) :
    Honest fingerprint (s.step fingerprint ns b (.export_ interval now)) := by
  have hPass := hHonest.pass
  cases hPhase : s.phase with
  | exporting p =>
    rw [hPhase] at hPass
    rcases hPass with ⟨hPrint, hItems⟩
    simp only [ExportPass.step, hPhase]
    split_ifs
    · exact hHonest.setPhase trivial
    · refine ⟨?_, hHonest.cache, trivial⟩
      intro st hSt
      cases hSt
      exact ⟨p.compared, hPrint, p.items, rfl, hItems⟩
  | idle => simp only [ExportPass.step, hPhase]; exact hHonest
  | hashing | ready | reading =>
    simp only [ExportPass.step, hPhase]
    exact hHonest

theorem honest_step (s : ExportPass F) (label : PassLabel) (hHonest : Honest fingerprint s)
    (hReread : RereadSame ns s label) : Honest fingerprint (s.step fingerprint ns b label) := by
  cases label with
  | mutate m => exact ⟨hHonest.baseline, hHonest.cache, hHonest.pass⟩
  | begin_ =>
    simp only [ExportPass.step]
    split
    · exact hHonest.setPhase (passHonest_getOrCompute hHonest _)
    · exact hHonest
  | compute =>
    simp only [ExportPass.step]
    split
    · refine ⟨hHonest.baseline, ?_, rfl, Or.inr rfl⟩
      intro entry hEntry
      cases hEntry
      rfl
    · exact hHonest
  | preview interval now others => exact honest_preview hHonest interval now others
  | reread =>
    have hPass := hHonest.pass
    simp only [ExportPass.step]
    split
    · rename_i p hPhase
      rw [hPhase] at hPass
      exact hHonest.setPhase ⟨hPass, hReread p hPhase⟩
    · exact hHonest
  | export_ interval now => exact honest_export hHonest interval now
  | abandon => exact hHonest.setPhase trivial
  | forget =>
    refine ⟨?_, hHonest.cache, hHonest.pass⟩
    intro st hSt
    cases hSt

omit [DecidableEq F] in
theorem honest_start (store : Store) : Honest fingerprint (ExportPass.start store) := by
  refine ⟨?_, ?_, trivial⟩
  · intro st hSt
    cases hSt
  · intro entry hEntry
    cases hEntry

/- Fingerprints that tell contents apart skip rightly. -/
theorem delivered_of_shouldSkip (hInjective : ∀ a b, fingerprint a = fingerprint b → SameItems a b)
    (hHonest : Honest fingerprint s) {compared : List Item} {interval now : Int}
    (hSkip : shouldSkip s.baseline b (fingerprint compared) interval now = true) :
    Delivered s compared := by
  rcases checksum_of_shouldSkip hSkip with ⟨st, hState, hChecksum⟩
  rcases hHonest.baseline st hState with ⟨content, hContent, sent, hSent, hSame⟩
  have hCompared : SameItems content compared :=
    hInjective content compared (hContent.symm.trans hChecksum)
  exact ⟨sent, hSent, hSame.trans hCompared⟩

theorem skipsDelivered_of_honest (hInjective : ∀ a b, fingerprint a = fingerprint b → SameItems a b)
    (s : ExportPass F) (label : PassLabel) (hHonest : Honest fingerprint s) :
    SkipsDelivered b s label := by
  have hPass := hHonest.pass
  cases label with
  | preview | export_ =>
    intro p hPhase hSkip
    rw [hPhase] at hPass
    rw [hPass.1] at hSkip
    exact delivered_of_shouldSkip hInjective hHonest hSkip
  | mutate | begin_ | compute | reread | abandon | forget => trivial

end Invariants

----
-- Runs
----

section Runs

variable {F : Type} [DecidableEq F] {fingerprint : List Item → F} {ns : Text} {b : BindingState}

/-
  When every pass that reads the items again finds those it fingerprinted, a pass debounces
  delivered content only.
-/
theorem skipsDelivered_of_rereadSame
    (hInjective : ∀ a b, fingerprint a = fingerprint b → SameItems a b) (store : Store)
    {labels : List PassLabel}
    (hRun : Run.Along (ExportPass.step fingerprint ns b)
        (RereadSame ns) (ExportPass.start store) labels) :
    Run.Along (ExportPass.step fingerprint ns b)
      (SkipsDelivered b) (ExportPass.start store) labels := by
  have hInv := Run.along_invariant honest_step (honest_start store) hRun
  apply hInv.imp
  intro s label hBoth
  exact skipsDelivered_of_honest hInjective s label hBoth.1

end Runs

/- The fingerprint that is the exported form itself. -/
def plainFingerprint (items : List Item) : List Json := (canonicalItems items).map itemJson

def deploymentRow (uid : Text) : Item :=
  ⟨"team-a", "deployments", "team-a", "app", "apps", "v1", "Deployment", uid, ∅⟩

def plainBinding : BindingState := ⟨⟨"inventory", "sink", 1⟩, 1, []⟩

/- A pass that computes its fingerprint and exports. -/
def fullPass (interval now : Int) : List PassLabel :=
  [.begin_, .compute, .preview interval now true, .export_ interval now]

/-
  The second pass has a cached fingerprint and reads the items again, after a row has come and gone;
  the third one debounces.
-/
def quietRun : List PassLabel :=
  fullPass 10 0 ++ [.begin_, .preview 10 20 true, .mutate (.upsert (deploymentRow "uid-2")),
    .mutate (.remove "team-a" "deployments" "uid-2"), .reread, .export_ 10 20, .begin_, .compute,
    .preview 10 25 true]

theorem quiet_namespace_skips_delivered :
    (∀ a b, plainFingerprint a = plainFingerprint b → SameItems a b) ∧
    Run.Along (ExportPass.step plainFingerprint "team-a" plainBinding) (SkipsDelivered plainBinding)
      (ExportPass.start (Store.empty.upsert (deploymentRow "uid-1"))) quietRun := by
  have hInjective : ∀ a b, plainFingerprint a = plainFingerprint b → SameItems a b :=
    fun _ _ hEq => hEq
  refine ⟨hInjective, skipsDelivered_of_rereadSame hInjective _ ?_⟩
  refine ⟨trivial, trivial, trivial, trivial, trivial, trivial, trivial, trivial, ?_, trivial,
    trivial, trivial, trivial, trivial⟩
  intro p hPhase
  cases hPhase
  rfl

/-
  The second pass has a cached fingerprint, and a row comes before it reads the items and goes after
  its export.
-/
def cachedRun : List PassLabel :=
  fullPass 10 0 ++ [.begin_, .preview 10 20 true, .mutate (.upsert (deploymentRow "uid-2")),
      .reread, .export_ 10 20, .mutate (.remove "team-a" "deployments" "uid-2"), .begin_, .compute]

/-
  The namespace is empty when the pass fingerprints it, and has a row when the pass reads it again.
-/
def emptyRun : List PassLabel :=
  [.begin_, .compute, .preview 0 0 true, .mutate (.upsert (deploymentRow "uid-1")),
    .reread, .export_ 0 0, .mutate (.remove "team-a" "deployments" "uid-1"), .begin_, .compute]

def afterPasses (store : Store) (labels : List PassLabel) : ExportPass (List Json) :=
  Run.exec (ExportPass.step plainFingerprint "team-a" plainBinding) (ExportPass.start store) labels

theorem not_skipsDelivered {s : ExportPass (List Json)} {p : Pass (List Json)}
    {sent : List Item} {interval now : Int} (hPhase : s.phase = .ready p)
    (hSkip : shouldSkip s.baseline plainBinding p.fingerprint interval now = true)
    (hSent : s.delivered = some sent)
    (hOther : plainFingerprint sent ≠ plainFingerprint p.compared) :
    ¬ SkipsDelivered plainBinding s (.preview interval now true) := by
  intro hRight
  rcases hRight p hPhase hSkip with ⟨sent', hSent', hSame⟩
  rw [hSent] at hSent'
  cases hSent'
  exact hOther hSame

/-
  Both runs end with a pass that debounces the binding although the sink holds a row that is gone.
-/
theorem returned_content_is_skipped : ¬ SkipsDelivered plainBinding
        (afterPasses (Store.empty.upsert (deploymentRow "uid-1")) cachedRun) (.preview 10 25 true) ∧
      ¬ SkipsDelivered plainBinding (afterPasses Store.empty emptyRun) (.preview 0 5 true) := by
  constructor
  · exact not_skipsDelivered rfl (by decide +kernel) rfl (by decide +kernel)
  · exact not_skipsDelivered rfl (by decide +kernel) rfl (by decide +kernel)

end Controller
end Kollect
