import Kollect.Export.Wire
import Kollect.Foundation.Run
import Kollect.Sink.SnapshotPath

/-
  The parts of an inventory's exports in an object store
  (`controller/kollectinventory_controller.go`, `collect/export_envelope.go`).

  An export writes its parts one after another and stops at the first error. A reader takes the
  objects at the part paths for one set when they have all indices, one total and one generation.
  The generation is that of the custom resource, so two exports may share it.

  Key theorems include:
    * `lookup_exportParts_kept`
    * `untorn_run_iff`
-/

namespace Kollect
namespace Sink

open Collect Export

----
-- Exports To An Object Store
----

/- An object store with the default path. -/
structure DefaultPathSink where
  spec : KollectSinkSpec
  objectStore : spec.type = .other
  json : ObjectStore.isParquetFormat spec = false
  noTemplate : Text.trimSpace spec.pathTemplate = []

/- A stored envelope and the export call that wrote it. -/
structure StoredObject where
  document : Json
  writer : Nat
deriving DecidableEq

abbrev Bucket := GoMap Text StoredObject

/- One export: what it exports, and the number of parts it writes before it stops. -/
structure PartsExport where
  items : List Item
  generation : Int
  exportedAt : Text
  maxBytes : Int
  stop : Nat

def PartsExport.metadata (call : PartsExport) : Metadata where
  generation := call.generation
  cluster := []
  exportedAt := call.exportedAt
  partIndex := 0
  partTotal := 0

/- A call whose items cannot be partitioned writes nothing. -/
def PartsExport.parts (sha : Digest) (call : PartsExport) : List EnvelopePartition :=
  match partitionEnvelopes sha call.items call.metadata call.maxBytes with
  | .ok parts => parts
  | .error _ => []

/- The export of one part; an empty snapshot is skipped. -/
def writePart (sink : DefaultPathSink) (inv : Inventory)
    (generation : Int) (writer : Nat) (bucket : Bucket) (part : EnvelopePartition) : Bucket :=
  if part.itemCount = 0 then bucket
  else
    bucket.insert (inv.writtenPath sink.spec generation part.index part.total)
      ⟨part.envelope, writer⟩

def exportParts (sha : Digest) (sink : DefaultPathSink) (inv : Inventory)
    (writer : Nat) (bucket : Bucket) (call : PartsExport) : Bucket :=
  ((call.parts sha).take call.stop).foldl (writePart sink inv call.generation writer) bucket

/- The store, and the number of calls so far. -/
structure StoreState where
  bucket : Bucket
  calls : Nat

def StoreState.empty : StoreState := ⟨∅, 0⟩

def StoreState.export (sha : Digest) (sink : DefaultPathSink) (inv : Inventory)
    (s : StoreState) (call : PartsExport) : StoreState where
  bucket := exportParts sha sink inv s.calls s.bucket call
  calls := s.calls + 1

----
-- Reading A Set
----

/- The completeness marker of a document. -/
structure Marks (document : Json) (generation : Int) (index total : Nat) : Prop where
  generation : intMember "generation" document = generation
  index : intMember "partIndex" document = index
  total : intMember "partTotal" document = total

variable (inv : Inventory) (bucket : Bucket)

/- The object at a part path is there and marked. -/
def MarkedAt (generation : Int) (index total : Nat) : Prop :=
  ∃ obj, bucket.lookup (inv.filePath index total "json") = some obj ∧
    Marks obj.document generation index total

/- The objects at the part paths pass the reader's check. -/
def CompleteSet (generation : Int) (total : Nat) : Prop :=
  ∀ index, 1 ≤ index → index ≤ total → MarkedAt inv bucket generation index total

/- Every set that passes was written by one call. -/
def Untorn : Prop :=
  ∀ generation total, CompleteSet inv bucket generation total →
      ∃ writer, ∀ index, 1 ≤ index → index ≤ total →
        ∀ obj, bucket.lookup (inv.filePath index total "json") = some obj → obj.writer = writer

----
-- Part Paths
----

theorem DefaultPathSink.writtenPath_eq (sink : DefaultPathSink) (inv : Inventory)
    (generation : Int) (index total : Nat) :
    inv.writtenPath sink.spec generation index total = inv.filePath index total "json" := by
  have hExt : renderedExt ".json" = '.' :: ("json" : Text) := by decide
  rw [Inventory.writtenPath_eq, (fileTemplate_default sink.noTemplate).objectPath_eq sink.json,
    frontOf_default, hExt]
  unfold Inventory.filePath Inventory.fileName Inventory.inventoryDir
  rw [List.append_assoc]

theorem filePath_inj {inv : Inventory} {i j n m : Nat} (hMany : 1 < n)
    (hEq : inv.filePath i n "json" = inv.filePath j m "json") : i = j ∧ n = m := by
  have hFile := List.append_cancel_left (List.append_cancel_left hEq)
  have hName := List.append_cancel_right (List.cons.inj hFile).2
  exact partMarker_inj hMany (List.append_cancel_left hName)

----
-- What An Export Writes
----

theorem marks_envelopeJson (sha : Digest) (items : List Item) (metadata : Metadata) :
    Marks (envelopeJson sha items metadata)
      metadata.generation metadata.partIndex
      metadata.partTotal := by
  rcases intMember_json (metadata.envelope sha (canonicalItems items)) with
    ⟨hGeneration, hIndex, hTotal, -⟩
  exact ⟨hGeneration, hIndex, hTotal⟩

theorem marks_partOf (sha : Digest) (call : PartsExport) (index : Nat)
    {total : Nat} (hMany : 1 < total) (group : List Item) :
    Marks (partOf sha call.metadata index total group).envelope call.generation index total := by
  have hMarks := marks_envelopeJson sha group
    { call.metadata with partIndex := index, partTotal := total }
  unfold partOf partMetadata
  rw [if_pos hMany]
  exact hMarks

section Export

variable {sha : Digest} {sink : DefaultPathSink} {inv : Inventory} {writer : Nat} {bucket : Bucket}
variable {call : PartsExport} {index total : Nat}

variable {k : Nat}

variable (sha) (call) in
theorem getElem?_parts (hK : k < (call.parts sha).length) : ∃ group, (call.parts sha)[k]? =
        some (partOf sha call.metadata (k + 1) (call.parts sha).length group) ∧
      (1 < (call.parts sha).length → group ≠ []) := by
  unfold PartsExport.parts at hK ⊢
  split at hK
  · rename_i parts hParts
    exact getElem?_partitionEnvelopes hParts hK
  · cases hK

/- The store after the first `k` parts. -/
def afterParts (sha : Digest) (sink : DefaultPathSink) (inv : Inventory)
    (writer : Nat) (bucket : Bucket) (call : PartsExport) (k : Nat) : Bucket :=
  ((call.parts sha).take k).foldl (writePart sink inv call.generation writer) bucket

theorem lookup_afterParts_succ (hMany : 1 < total) (hK : k < (call.parts sha).length) :
    (afterParts sha sink inv writer bucket call (k + 1)).lookup (inv.filePath index total "json") =
      if index = k + 1 ∧ total = (call.parts sha).length then
        ((call.parts sha)[k]?).map (fun part => ⟨part.envelope, writer⟩)
      else
        (afterParts sha sink inv writer bucket call k).lookup
          (inv.filePath index total "json") := by
  rcases getElem?_parts sha call hK with ⟨group, hPart, hGroup⟩
  have hNext :
      afterParts sha sink inv writer bucket call (k + 1) = writePart sink inv call.generation writer
          (afterParts sha sink inv writer bucket call k)
          (partOf sha call.metadata (k + 1) (call.parts sha).length group) := by
    unfold afterParts
    rw [List.take_add_one, List.foldl_append, hPart]
    rfl
  have hPath :
      inv.filePath index total "json" = inv.filePath (k + 1) (call.parts sha).length "json" ↔
        index = k + 1 ∧ total = (call.parts sha).length := by
    constructor
    · exact filePath_inj hMany
    · intro hBoth
      rw [hBoth.1, hBoth.2]
  rw [hNext, hPart]
  unfold writePart
  split_ifs with hItems hOwn hOwn
  · -- only a lone part is skipped
    rw [hOwn.2] at hMany
    exact absurd (List.length_eq_zero_iff.mp hItems) (hGroup hMany)
  · rfl
  · rw [sink.writtenPath_eq, GoMap.lookup_insert_ite]
    exact if_pos (hPath.mpr hOwn)
  · rw [sink.writtenPath_eq, GoMap.lookup_insert_ite]
    exact if_neg fun hEq => hOwn (hPath.mp hEq)

theorem lookup_afterParts (hMany : 1 < total) (hK : k ≤ (call.parts sha).length) :
    (afterParts sha sink inv writer bucket call k).lookup (inv.filePath index total "json") =
      if total = (call.parts sha).length ∧ 1 ≤ index ∧ index ≤ k then
        ((call.parts sha)[index - 1]?).map (fun part => ⟨part.envelope, writer⟩)
      else bucket.lookup (inv.filePath index total "json") := by
  induction k with
  | zero =>
    rw [if_neg (by omega)]
    rfl
  | succ k ih =>
    rw [lookup_afterParts_succ hMany hK, ih (Nat.le_of_succ_le hK)]
    by_cases hOwn : index = k + 1 ∧ total = (call.parts sha).length
    · rw [if_pos hOwn, if_pos ⟨hOwn.2, by omega⟩, hOwn.1, Nat.add_sub_cancel]
    · rw [if_neg hOwn]
      congr 1
      rw [eq_iff_iff]
      constructor
      · intro hWritten
        exact ⟨hWritten.1, hWritten.2.1, by omega⟩
      · intro hWritten
        refine ⟨hWritten.1, hWritten.2.1, ?_⟩
        have hNe : index ≠ k + 1 := fun hEq => hOwn ⟨hEq, hWritten.1⟩
        omega

/- The number of parts a call writes. -/
def written (sha : Digest) (call : PartsExport) : Nat := min call.stop (call.parts sha).length

theorem exportParts_eq : exportParts sha sink inv writer bucket call =
      afterParts sha sink inv writer bucket call (written sha call) := by
  unfold exportParts afterParts written
  rw [← List.take_eq_take_min]

variable (sink) (inv) (writer) (bucket) in
theorem lookup_exportParts_written (hMany : 1 < (call.parts sha).length) (hIndex : 1 ≤ index)
    (hWritten : index ≤ written sha call) :
    ∃ document, (exportParts sha sink inv writer bucket call).lookup
          (inv.filePath index (call.parts sha).length "json") = some ⟨document, writer⟩ ∧
      Marks document call.generation index (call.parts sha).length := by
  have hBound : written sha call ≤ (call.parts sha).length := Nat.min_le_right _ _
  rcases getElem?_parts sha call (k := index - 1) (by omega) with ⟨group, hPart, _⟩
  rw [exportParts_eq, lookup_afterParts hMany hBound, if_pos ⟨rfl, hIndex, hWritten⟩, hPart]
  rw [Nat.sub_add_cancel hIndex]
  exact ⟨_, rfl, marks_partOf sha call index hMany group⟩

variable (hMany : 1 < total)
  (hKept : ¬ (total = (call.parts sha).length ∧ 1 ≤ index ∧ index ≤ written sha call))

include hMany hKept

theorem lookup_exportParts_kept :
    (exportParts sha sink inv writer bucket call).lookup (inv.filePath index total "json") =
      bucket.lookup (inv.filePath index total "json") := by
  have hBound : written sha call ≤ (call.parts sha).length := Nat.min_le_right _ _
  rw [exportParts_eq, lookup_afterParts hMany hBound, if_neg hKept]

theorem markedAt_exportParts_kept (generation : Int) :
    MarkedAt inv (exportParts sha sink inv writer bucket call)
        generation index total ↔ MarkedAt inv bucket generation index total := by
  unfold MarkedAt
  rw [lookup_exportParts_kept hMany hKept]

end Export

----
-- Runs
----

/-
  A call that stops between its first and its last part finds one of the paths left without an
  object of its generation.
-/
def StopsVisibly (sha : Digest) (inv : Inventory) (s : StoreState) (call : PartsExport) : Prop :=
  0 < written sha call → written sha call < (call.parts sha).length →
      ∃ index, written sha call < index ∧ index ≤ (call.parts sha).length ∧
        ¬ MarkedAt inv s.bucket call.generation index (call.parts sha).length

/- Every object is of an earlier call. -/
def EarlierWriters (s : StoreState) : Prop :=
  ∀ path obj, s.bucket.lookup path = some obj → obj.writer < s.calls

section Step

variable {sha : Digest} {sink : DefaultPathSink} {inv : Inventory} {s : StoreState}

theorem earlierWriters_export (hEarlier : EarlierWriters s) (call : PartsExport) :
    EarlierWriters (s.export sha sink inv call) := by
  -- every object put by the fold has the number of the call
  have hFold : ∀ (parts : List EnvelopePartition) (bucket : Bucket),
      (∀ path obj, bucket.lookup path = some obj → obj.writer < s.calls + 1) →
      ∀ path obj,
        (parts.foldl (writePart sink inv call.generation s.calls) bucket).lookup path = some obj →
        obj.writer < s.calls + 1 := by
    intro parts
    induction parts with
    | nil => exact fun _ hAll => hAll
    | cons part parts ih =>
      intro bucket hAll
      apply ih
      intro path obj hLookup
      unfold writePart at hLookup
      split_ifs at hLookup
      · exact hAll path obj hLookup
      · rw [GoMap.lookup_insert_ite] at hLookup
        split_ifs at hLookup
        · rw [← Option.some.inj hLookup]
          exact Nat.lt_succ_self _
        · exact hAll path obj hLookup
  apply hFold
  intro path obj hLookup
  exact Nat.lt_succ_of_lt (hEarlier path obj hLookup)

/- A set of at most one part has one writer. -/
theorem untorn_small {bucket : Bucket} {total : Nat} (hSmall : ¬ 1 < total) :
    ∃ writer, ∀ index, 1 ≤ index → index ≤ total →
      ∀ obj, bucket.lookup (inv.filePath index total "json") = some obj → obj.writer = writer := by
  cases hObj : bucket.lookup (inv.filePath 1 total "json") with
  | none =>
    refine ⟨0, ?_⟩
    intro index hPos hLe obj hLookup
    have hOne : index = 1 := by omega
    rw [hOne, hObj] at hLookup
    cases hLookup
  | some obj =>
    refine ⟨obj.writer, ?_⟩
    intro index hPos hLe obj' hLookup
    have hOne : index = 1 := by omega
    rw [hOne, hObj] at hLookup
    rw [Option.some.inj hLookup]

/- A call that stops visibly tears no set. -/
theorem untorn_of_stopsVisibly (hUntorn : Untorn inv s.bucket) {call : PartsExport}
    (hVisible : StopsVisibly sha inv s call) : Untorn inv (s.export sha sink inv call).bucket := by
  intro generation total hComplete
  by_cases hMany : 1 < total
  swap
  · exact untorn_small hMany
  have hOld : (∀ index, 1 ≤ index → index ≤ total →
      ¬ (total = (call.parts sha).length ∧ 1 ≤ index ∧ index ≤ written sha call)) →
      ∃ writer, ∀ index, 1 ≤ index → index ≤ total → ∀ obj,
          (s.export sha sink inv call).bucket.lookup (inv.filePath index total "json") = some obj →
            obj.writer = writer := by
    intro hKept
    have hBefore : CompleteSet inv s.bucket generation total := by
      intro index hPos hLe
      exact (markedAt_exportParts_kept hMany
        (hKept index hPos hLe) generation).mp (hComplete index hPos hLe)
    rcases hUntorn generation total hBefore with ⟨writer, hWriter⟩
    refine ⟨writer, ?_⟩
    intro index hPos hLe obj hLookup
    apply hWriter index hPos hLe
    rw [← hLookup]
    exact (lookup_exportParts_kept hMany (hKept index hPos hLe)).symm
  by_cases hTotal : total = (call.parts sha).length
  swap
  · exact hOld fun _ _ _ hWritten => hTotal hWritten.1
  subst hTotal
  rcases Nat.eq_zero_or_pos (written sha call) with hNone | hSome
  · exact hOld fun _ _ _ hWritten => by omega
  by_cases hAll : written sha call < (call.parts sha).length
  · -- the first part is new, so a left one tells them apart
    exfalso
    rcases hVisible hSome hAll with ⟨index, hLeft, hLe, hUnmarked⟩
    rcases lookup_exportParts_written sink inv s.calls s.bucket
      hMany (Nat.le_refl 1) hSome with ⟨document, hFirst, hMarks⟩
    rcases hComplete 1 (Nat.le_refl 1) (by omega) with ⟨obj, hObj, hObjMarks⟩
    have hSame : generation = call.generation := by
      rw [← hObjMarks.generation, ← hMarks.generation, ← Option.some.inj (hFirst.symm.trans hObj)]
    have hMarked := hComplete index (by omega) hLe
    rw [hSame] at hMarked
    apply hUnmarked
    exact (markedAt_exportParts_kept hMany (by omega) call.generation).mp hMarked
  · refine ⟨s.calls, ?_⟩
    intro index hPos hLe obj hLookup
    rcases lookup_exportParts_written sink inv s.calls s.bucket
      hMany hPos (by omega) with ⟨document, hNew, _⟩
    rw [← Option.some.inj (hNew.symm.trans hLookup)]

/- A call that does not, completes a set of two calls. -/
theorem stopsVisibly_of_untorn (hEarlier : EarlierWriters s) {call : PartsExport}
    (hUntorn : Untorn inv (s.export sha sink inv call).bucket) : StopsVisibly sha inv s call := by
  intro hSome hAll
  by_contra hHidden
  simp only [not_exists, not_and, not_not] at hHidden
  have hMany : 1 < (call.parts sha).length := by omega
  have hComplete : CompleteSet inv (s.export sha sink inv call).bucket
        call.generation (call.parts sha).length := by
    intro index hPos hLe
    by_cases hNew : index ≤ written sha call
    · rcases lookup_exportParts_written sink inv s.calls
        s.bucket hMany hPos hNew with
        ⟨document, hLookup, hMarks⟩
      exact ⟨_, hLookup, hMarks⟩
    · apply (markedAt_exportParts_kept hMany (by omega) call.generation).mpr
      exact hHidden index (Nat.lt_of_not_le hNew) hLe
  rcases hUntorn _ _ hComplete with ⟨writer, hWriter⟩
  rcases lookup_exportParts_written sink inv s.calls s.bucket
    hMany (Nat.le_refl 1) hSome with ⟨document, hFirst, _⟩
  rcases hHidden _ hAll (Nat.le_refl _) with ⟨obj, hLast, _⟩
  have hFirstWriter : s.calls = writer := hWriter 1 (Nat.le_refl 1) (by omega) _ hFirst
  have hLastWriter := hWriter (call.parts sha).length (by omega) (Nat.le_refl _) obj
      ((lookup_exportParts_kept hMany (by omega)).trans hLast)
  have hBefore := hEarlier _ obj hLast
  omega

/- A complete export is followed by one of its generation and total that stops halfway. -/
theorem not_untorn_of_same_generation (hEarlier : EarlierWriters s) {first second : PartsExport}
    (hGeneration : first.generation = second.generation)
    (hTotal : (first.parts sha).length = (second.parts sha).length)
    (hComplete : (first.parts sha).length ≤ first.stop) (hSome : 0 < written sha second)
    (hStops : written sha second < (second.parts sha).length) :
    ¬ Untorn inv (Run.exec (StoreState.export sha sink inv) s [first, second]).bucket := by
  intro hUntorn
  have hVisible := stopsVisibly_of_untorn (earlierWriters_export hEarlier first) hUntorn
  rcases hVisible hSome hStops with ⟨index, hLeft, hLe, hUnmarked⟩
  have hWritten : index ≤ written sha first := by
    unfold written
    omega
  rcases lookup_exportParts_written sink inv s.calls s.bucket
    (by omega) (by omega) hWritten with
    ⟨document, hLookup, hMarks⟩
  apply hUnmarked
  rw [← hGeneration, ← hTotal]
  exact ⟨_, hLookup, hMarks⟩

theorem earlierWriters_empty : EarlierWriters StoreState.empty := by
  intro path obj hLookup
  cases hLookup

end Step

/-
  Along a run of exports every set that passes the reader's check is of one call exactly when every
  call that stops halfway stops visibly.
-/
theorem untorn_run_iff (sha : Digest) (sink : DefaultPathSink) (inv : Inventory)
    (calls : List PartsExport) : Run.Along (StoreState.export sha sink inv)
        (fun s call => Untorn inv (s.export sha sink inv call).bucket) StoreState.empty calls ↔
      Run.Along (StoreState.export sha sink inv) (StopsVisibly sha inv) StoreState.empty calls := by
  have hInv : ∀ (s : StoreState) (call : PartsExport),
      EarlierWriters s → EarlierWriters (s.export sha sink inv call) :=
    fun s call hEarlier => earlierWriters_export hEarlier call
  apply Run.along_step_iff (Q := fun s => Untorn inv s.bucket) hInv
  · intro s call hEarlier hUntorn
    exact ⟨stopsVisibly_of_untorn hEarlier, untorn_of_stopsVisibly hUntorn⟩
  · exact earlierWriters_empty
  · intro generation total hComplete
    refine ⟨0, ?_⟩
    intro index _ _ obj hLookup
    cases hLookup

----
-- Two Exports Of One Generation
----

def plainStore : DefaultPathSink where
  spec := storeWith []
  objectStore := rfl
  json := rfl
  noTemplate := rfl

def rowWith (uid replicas : Text) : Item where
  targetNamespace := "a"
  targetName := "t"
  namespace_ := "a"
  name := "n"
  group := []
  version := "v"
  kind := "K"
  uid := uid
  attributes := AList.singleton "r" (.str replicas)

def twoRows (replicas : Text) (stop : Nat) : PartsExport where
  items := [rowWith "1" replicas, rowWith "2" replicas]
  generation := 1
  exportedAt := "t"
  maxBytes := 330
  stop := stop

/-
  A complete export, then one of changed content that stops after its first part: the reader takes
  the two halves for one set.
-/
theorem halves_of_two_exports_pass :
    ¬ Untorn webInventory (Run.exec (StoreState.export paddedDigest plainStore webInventory)
        StoreState.empty [twoRows "1" 2, twoRows "2" 1]).bucket := by
  have hFirst : ((twoRows "1" 2).parts paddedDigest).length = 2 := by decide +kernel
  have hSecond : ((twoRows "2" 1).parts paddedDigest).length = 2 := by decide +kernel
  have hWritten : written paddedDigest (twoRows "2" 1) = 1 := by
    unfold written
    rw [hSecond]
    rfl
  apply not_untorn_of_same_generation earlierWriters_empty
  · rfl
  · rw [hFirst, hSecond]
  · rw [hFirst]
    exact Nat.le_refl 2
  · rw [hWritten]
    exact Nat.one_pos
  · rw [hWritten, hSecond]
    exact Nat.one_lt_two

end Sink
end Kollect
