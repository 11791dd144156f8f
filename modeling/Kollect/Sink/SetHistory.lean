import Kollect.Foundation.Run
import Kollect.Sink.Git.Prune
import Kollect.Sink.LayoutExport

/-
  What the export sets of one inventory leave on a branch (`sink/layout_export.go`,
  `sink/git/prune_owned.go`, `controller/kollectinventory_controller.go`).

  A set of several parts commits the files of each part at once, and the owner's record only with
  the last part. A prune removes what is on record. Files of a set that stops on the way are on no
  record, and a path that is no text is recorded as another.

  Key theorems include:
    * `nothingLeft_iff`
    * `sets_leave_nothing_iff`
-/

namespace Kollect
namespace Sink

open Collect Export

----
-- What A Part Asks For
----

/-
  The options of a part: a lone part prunes at once, a part in the middle does not, and the last one
  keeps the paths of all parts and the manifest.
-/
inductive PlanStep (index total : Nat) (paths : List Text) :
    Option PrunePlan → Option PrunePlan → Bool → List Text → Prop
  | single (hTotal : total ≤ 1)
      (plan : Option PrunePlan) : PlanStep index total paths plan plan false []
  | unplanned (hTotal : 1 < total) : PlanStep index total paths none none true []
  | middle (hMiddle : 1 < total ∧ index < total)
      (plan : PrunePlan) : PlanStep index total paths (some plan) (some (plan.add paths)) true []
  | last (hTotal : 1 < total) (hLast : total ≤ index) (plan : PrunePlan) {data : List Text}
      {manifest : Text}
      (hPaths : paths = data ++ [manifest]) :
      PlanStep index total paths (some plan) (some (plan.add data)) false
        ((plan.add data).union ++ [manifest])

namespace PlanStep

variable {index total : Nat} {paths keep : List Text} {before next : Option PrunePlan}
variable {suppress : Bool}

variable (h : PlanStep index total paths before next suppress keep)

include h

theorem of_single (hTotal : total ≤ 1) : suppress = false ∧ keep = [] := by
  cases h with
  | single => exact ⟨rfl, rfl⟩
  | unplanned hMany | last hMany => exact absurd hTotal (Nat.not_le_of_lt hMany)
  | middle hMiddle =>
    -- a set of one part has no middle
    exact absurd hTotal (Nat.not_le_of_lt hMiddle.1)

theorem of_middle (hMany : 1 < total) (hMiddle : index < total) {plan : PrunePlan}
    (hPlan : before = some plan) : suppress = true ∧ next = some (plan.add paths) := by
  cases h with
  | single hTotal => exact absurd hTotal (Nat.not_le_of_lt hMany)
  | unplanned => cases hPlan
  | middle _ =>
    cases hPlan
    exact ⟨rfl, rfl⟩
  | last _ hLast => exact absurd hMiddle (Nat.not_lt_of_le hLast)

theorem of_last (hMany : 1 < total) (hLast : total ≤ index) {plan : PrunePlan}
    (hPlan : before = some plan) : suppress = false ∧
      ∃ data manifest, paths = data ++ [manifest] ∧ keep = (plan.add data).union ++ [manifest] := by
  cases h with
  | single hTotal => exact absurd hTotal (Nat.not_le_of_lt hMany)
  | unplanned => cases hPlan
  | middle hMiddle => exact absurd hMiddle.2 (Nat.not_lt_of_le hLast)
  | last _ _ _ hPaths =>
    cases hPlan
    exact ⟨rfl, _, _, hPaths, rfl⟩

end PlanStep

def clusterName (spec : KollectSinkSpec) : Text :=
  if Text.trimSpace spec.cluster = [] then "default"
  else Text.trimSpace spec.cluster

section Resolve

variable {sha : Digest} {codec : Codec} {spec : KollectSinkSpec} {document : Json}
variable {invNS invName path : Text} {generation : Int} {inventory : InventoryIdentity}
variable {plan plan' : Option PrunePlan} {snapshot : SnapshotExport}

/- The options of a tree's part, with the manifest of the last one. -/
theorem planStep_appendSetManifest {r : ResolvedLayout} {files : List File} {index total : Nat}
    {owner : Text} {claim : List Text} {asked : ExportFilesOptions × Option PrunePlan}
    {entries : List Git.FileEntry × ExportFilesOptions} (hPrune : r.prune = true)
    (hAsked : gitExportOpts true index total (files.map File.path) plan = asked)
    (hEntries : appendSetManifest r (files.map toEntry)
      { asked.1 with pruneOwner := owner, pruneClaimPaths := claim } index total asked.2 =
        .ok entries) :
    entries.2.prune = true ∧ entries.2.pruneOwner = owner ∧
      PlanStep index total (entries.1.map Git.FileEntry.path) plan asked.2 entries.2.suppressPrune
        entries.2.pruneKeepPaths := by
  subst hAsked
  have hPaths : (files.map toEntry).map Git.FileEntry.path = files.map File.path := by
    rw [List.map_map]
    rfl
  by_cases hTotal : total ≤ 1
  · -- a lone part
    have hOpts : gitExportOpts true index total (files.map File.path) plan =
        (⟨true, [], [], false, []⟩, plan) := if_pos (.inr hTotal)
    have hNone : ∀ opts, appendSetManifest r (files.map toEntry) opts index total plan =
        .ok (files.map toEntry, opts) := by
      intro opts
      cases plan with
      | none => rfl
      | some plan => exact if_pos (.inr (.inl hTotal))
    rw [hOpts, hNone] at hEntries
    rw [hOpts, ← Except.ok.inj hEntries]
    exact ⟨rfl, rfl, .single hTotal plan⟩
  · have hMany := Nat.lt_of_not_le hTotal
    cases plan with
    | none =>
      have hOpts : gitExportOpts true index total (files.map File.path) none =
          (⟨true, [], [], true, []⟩, none) := if_neg (by simpa using hMany)
      rw [hOpts] at hEntries
      rw [hOpts, ← Except.ok.inj hEntries]
      exact ⟨rfl, rfl, .unplanned hMany⟩
    | some plan =>
      by_cases hMiddle : index < total
      · rw [gitExportOpts_middle hMiddle hMany, appendSetManifest_middle hMiddle] at hEntries
        rw [gitExportOpts_middle hMiddle hMany, ← Except.ok.inj hEntries]
        rw [hPaths]
        exact ⟨rfl, rfl, .middle ⟨hMany, hMiddle⟩ plan⟩
      · have hLast := Nat.le_of_not_lt hMiddle
        have hOpts : gitExportOpts true index total (files.map File.path) (some plan) =
            (⟨true, [], (plan.add (files.map File.path)).union, false, []⟩,
              some (plan.add (files.map File.path))) := by
          unfold gitExportOpts
          dsimp only
          rw [if_neg (by simpa using hMany), if_pos hLast]
        rw [hOpts] at hEntries ⊢
        unfold appendSetManifest at hEntries
        dsimp only at hEntries
        rw [if_neg (by rw [hPrune]; simp; omega)] at hEntries
        split_ifs at hEntries
        rw [← Except.ok.inj hEntries]
        refine ⟨rfl, rfl, ?_⟩
        apply PlanStep.last hMany hLast plan
        rw [List.map_append, hPaths]
        rfl

theorem resolveSnapshotExport_tree (hGit : spec.type ≠ .other)
    (hTree : ∀ items, itemsFromPayload codec.float document = .ok items →
        effectiveMode spec (inferResourceLayoutHints items) ≠ .document)
    (hOk : resolveSnapshotExport sha codec true spec document
          invNS invName generation path inventory plan =
        .ok (snapshot, plan')) :
    ∃ gitFiles opts, snapshot = .files gitFiles opts ∧ opts.prune = true ∧
        opts.pruneOwner = pruneOwnerOf (clusterName spec) inventory ∧
        PlanStep (intMember "partIndex" document).toNat (intMember "partTotal" document).toNat
          (gitFiles.map Git.FileEntry.path) plan plan' opts.suppressPrune opts.pruneKeepPaths := by
  unfold resolveSnapshotExport at hOk
  rw [if_neg (mt isGitLayoutFamily_eq_false.mp hGit)] at hOk
  simp only [Fallible.bind_eq_ok, Fallible.mapError_eq_ok] at hOk
  rcases hOk with ⟨items, hItems, hOk⟩
  have hMode := hTree items hItems
  generalize hLayout :
    layoutOf codec spec invNS invName generation (textMember "exportedAt" document) items = r at hOk
  have hPrune : r.prune = true := by
    rw [← hLayout]
    exact decide_eq_true hMode
  have hTreeLayout : r.isDocument = false := by
    rw [← hLayout]
    exact decide_eq_false hMode
  have hCluster : r.cluster = Text.trimSpace spec.cluster := by
    rw [← hLayout]
    rfl
  generalize (intMember "partIndex" document).toNat = index at hOk ⊢
  generalize (intMember "partTotal" document).toNat = total at hOk ⊢
  rw [hTreeLayout, Bool.false_and, if_neg Bool.false_ne_true] at hOk
  simp only [Fallible.bind_eq_ok, Fallible.mapError_eq_ok,
    Bool.true_eq_false, if_false, hPrune] at hOk
  rcases hOk with ⟨files, -, owner, hOwner, entries, hEntries, hOk⟩
  have hOwnerEq : owner = pruneOwnerOf (clusterName spec) inventory := by
    unfold inventoryPruneOwner at hOwner
    simp only [Fallible.bind_eq_ok, Fallible.mapError_eq_ok] at hOwner
    rcases hOwner with ⟨_, -, hEq⟩
    rw [← Except.ok.inj hEq, hCluster]
    rfl
  have hResult := Prod.mk.inj (Except.ok.inj hOk)
  refine ⟨entries.1, entries.2, hResult.1.symm, ?_⟩
  rw [← hResult.2, ← hOwnerEq]
  exact planStep_appendSetManifest hPrune rfl hEntries

end Resolve

----
-- Running A Set
----

/- The files that the backend is given, where it writes them. -/
def SnapshotExport.storedPaths (sinkPrune : Bool) : SnapshotExport → List Text
  | .payload path data => validatedPaths ⟨[], sinkPrune, [], []⟩ [⟨path, data⟩]
  | .files gitFiles opts => validatedPaths (filesConfig sinkPrune opts) gitFiles
where
  validatedPaths (cfg : Git.PruneConfig)
      (files : List Git.FileEntry) : List Text :=
    match Git.validateExportFiles cfg files with
    | .ok validated => validated.map Git.FileEntry.path
    | .error _ => []

section Parts

variable (sha : Digest) (codec : Codec) (sinkPrune : Bool) (spec : KollectSinkSpec)
variable (inv : InventoryIdentity)

def resolvePart (plan : Option PrunePlan) (part : EnvelopePartition) :
    Except SnapshotError (SnapshotExport × Option PrunePlan) :=
  let inventory :=
    ObjectStore.inventoryFromObjectPath (partitionObjectPath inv.objectPath part.index part.total)
  let generation := intMember "generation" part.envelope
  resolveSnapshotExport sha codec true spec part.envelope inventory.1 inventory.2 generation
    (ObjectStore.objectPath spec inventory.1 inventory.2 generation) inv plan

theorem exportPart_eq (s : SetState) (part : EnvelopePartition) :
    exportPart sha codec sinkPrune spec inv s part = (do
      let (snapshot, plan) ← (resolvePart sha codec spec inv s.plan part).mapError SetError.resolve
      let tree ← (snapshot.run sha sinkPrune s.tree).mapError .backend
      pure ⟨tree, plan⟩) :=
  rfl

def partWrites (plan : Option PrunePlan) (part : EnvelopePartition) : List Text :=
  match resolvePart sha codec spec inv plan part with
  | .ok (snapshot, _) => snapshot.storedPaths sinkPrune
  | .error _ => []

/- Where a run of calls got to. -/
structure Progress where
  state : SetState
  wrote : List Text
  finished : Bool

def runParts : SetState → List EnvelopePartition → Progress
  | s, [] => ⟨s, [], true⟩
  | s, part :: rest =>
    match exportPart sha codec sinkPrune spec inv s part with
    | .error _ => ⟨s, [], false⟩
    | .ok s' =>
      let later := runParts s' rest
      { later with wrote := partWrites sha codec sinkPrune spec inv s.plan part ++ later.wrote }

theorem runParts_concat (s : SetState) (init : List EnvelopePartition) (last : EnvelopePartition)
    (hDone : (runParts sha codec sinkPrune spec inv s (init ++ [last])).finished = true) :
    let first := runParts sha codec sinkPrune spec inv s init
    let final := runParts sha codec sinkPrune spec inv s (init ++ [last])
    first.finished = true ∧
      exportPart sha codec sinkPrune spec inv first.state last = .ok final.state ∧
      final.wrote = first.wrote ++
        partWrites sha codec sinkPrune spec inv first.state.plan
          last := by
  induction init generalizing s with
  | nil =>
    rw [List.nil_append, runParts] at hDone ⊢
    cases hCall : exportPart sha codec sinkPrune spec inv s last with
    | error e =>
      rw [hCall] at hDone
      cases hDone
    | ok s' =>
      refine ⟨rfl, hCall, ?_⟩
      simp [runParts]
  | cons part init ih =>
    rw [List.cons_append, runParts] at hDone
    rw [List.cons_append, runParts, runParts]
    cases hCall : exportPart sha codec sinkPrune spec inv s part with
    | error e =>
      rw [hCall] at hDone
      cases hDone
    | ok s' =>
      rw [hCall] at hDone
      rcases ih s' hDone with ⟨hFirst, hLast, hWrote⟩
      refine ⟨hFirst, hLast, ?_⟩
      dsimp only
      rw [hWrote, List.append_assoc]

end Parts

----
-- What One Call Leaves
----

namespace Git

section Calls

variable {sha : Digest} {t : FileTree} {cfg : PruneConfig} {files : List FileEntry}
variable {change : TreeChange} {p : Text}

theorem lookup_suppressed (hOwner : cfg.pruneOwner ≠ []) (hPrune : cfg.prune = false)
    (hOk : writeExportFiles sha t cfg files = .ok change) (hP : p ∉ files.map FileEntry.path) :
    change.tree.lookup p = t.lookup p := by
  rcases writeExportFiles_owned hOwner hOk with ⟨-, loaded, current, -, -, hExport⟩
  cases hExport with
  | suppressed _ hFill =>
    apply FileTree.lookup_writeFiles_of_notMem hFill
    rw [List.map_map]
    exact hP
  | advanced hOn =>
    rw [hPrune] at hOn
    cases hOn

/- A prune removes what is on record and not kept. -/
theorem lookup_pruned (hOwner : cfg.pruneOwner ≠ []) (hPrune : cfg.prune = true)
    (hOk : writeExportFiles sha t cfg files = .ok change) (hValid : validatePrunePath p = .ok ())
    (hP : p ∉ pruneKeepSet cfg (files.map FileEntry.path)) :
    (Lists sha t cfg.pruneOwner p → change.tree.lookup p = none) ∧
      (¬ Lists sha t cfg.pruneOwner p → change.tree.lookup p = t.lookup p) := by
  rcases writeExportFiles_owned hOwner hOk with ⟨-, loaded, current, hLoad, hPaths, hExport⟩
  cases hExport with
  | suppressed hOff =>
    rw [hPrune] at hOff
    cases hOff
  | @advanced _ plan hPlan filled cleared final hFill hClear
      hRecord =>
      rcases planOwnedPrune_ok hPlan with ⟨-, -, -, hEq⟩
      subst hEq
      have hNotRecord : p ≠ pruneRecordPath sha cfg.pruneOwner := by
        intro hIs
        rw [hIs] at hValid
        exact not_atMetadata_of_valid hValid (atMetadata_recordPath sha _)
      have hNotKept : p ∉ current := fun hMem => hP ((hPaths.mem_iff p).mp hMem)
      have hFilled : filled.lookup p = t.lookup p := by
        apply FileTree.lookup_writeFiles_of_notMem hFill
        rw [List.map_map]
        intro hMem
        exact hNotKept (hPaths.written_mem p hMem)
      have hRemove : p ∈ Text.sort ((loaded.pathsOf cfg.pruneOwner).filter (fun p => p ∉ current)) ↔
          Lists sha t cfg.pruneOwner p := by
        rw [Text.mem_sort, List.mem_filter, ← mem_pathsOf_iff hLoad]
        simp [hNotKept]
      rw [FileTree.lookup_writeFile hRecord, if_neg hNotRecord,
        FileTree.lookup_removeFiles hClear, hFilled]
      exact ⟨fun hListed => if_pos (hRemove.mpr hListed),
        fun hNot => if_neg fun hMem => hNot (hRemove.mp hMem)⟩

/- An export changes the record file of its owner only, and that only if it prunes. -/
theorem recordOf_other (hOwner : cfg.pruneOwner ≠ [])
    (hOk : writeExportFiles sha t cfg files = .ok change) {o : Text} {record : PruneRecord}
    (hO : cfg.prune = false ∨ pruneRecordPath sha o ≠ pruneRecordPath sha cfg.pruneOwner) :
    RecordOf sha change.tree o record ↔ RecordOf sha t o record := by
  rcases writeExportFiles_owned hOwner hOk with ⟨-, loaded, current, hLoad, hPaths, hExport⟩
  have hSame : ∀ p, AtMetadata p → (cfg.prune = false ∨ p ≠ pruneRecordPath sha cfg.pruneOwner) →
      change.tree.lookup p = t.lookup p := by
    rintro p hAt hP
    rw [hExport.metadata hLoad hPaths hAt, if_neg]
    rintro ⟨hOn, rfl⟩
    rcases hP with hOff | hNe
    · rw [hOff] at hOn
      cases hOn
    · exact hNe rfl
  have hDir := hSame pruneMetadataDir (.inr rfl) (.inr (recordPath_ne_metadataDir _).symm)
  have hFile := hSame (pruneRecordPath sha o) (atMetadata_recordPath sha o) hO
  unfold RecordOf
  refine and_congr_right fun _ => exists_congr fun size => ?_
  exact ⟨readPruneRecord_congr hDir.symm hFile.symm, readPruneRecord_congr hDir hFile⟩

/- No record in the tree is in the place of the owner's and belongs to someone else. -/
def OwnPlace (sha : Digest) (t : FileTree) (owner : Text) : Prop :=
  ∀ o record, RecordOf sha t o record → pruneRecordPath sha o = pruneRecordPath sha owner →
    o = owner

theorem ownPlace_writeExportFiles (hOwner : cfg.pruneOwner ≠ [])
    (hOk : writeExportFiles sha t cfg files = .ok change)
    (hPlace : OwnPlace sha t cfg.pruneOwner) : OwnPlace sha change.tree cfg.pruneOwner := by
  intro o record hRecord hPath
  cases hPrune : cfg.prune with
  | false => exact hPlace o record ((recordOf_other hOwner hOk (.inl hPrune)).mp hRecord) hPath
  | true =>
    obtain ⟨-, current, size, -, hRead⟩ := readPruneRecord_writeExportFiles hOwner hPrune hOk
    obtain ⟨hIs, size', hRead'⟩ := hRecord
    have hName : pruneRecordName sha o = pruneRecordName sha cfg.pruneOwner := by
      simpa [pruneRecordPath] using hPath
    rw [hName, hRead] at hRead'
    obtain ⟨rfl, -⟩ := Prod.mk.inj (Except.ok.inj hRead')
    exact hIs.symm

theorem valid_of_mem_keepSet (hOwner : cfg.pruneOwner ≠ [])
    (hOk : writeExportFiles sha t cfg files = .ok change)
    (hP : p ∈ pruneKeepSet cfg (files.map FileEntry.path)) : validatePrunePath p = .ok () := by
  rcases writeExportFiles_owned hOwner hOk with ⟨-, loaded, current, -, hPaths, -⟩
  exact hPaths.valid p ((hPaths.mem_iff p).mpr hP)

end Calls

end Git

section Part

variable {sha : Digest} {codec : Codec} {sinkPrune : Bool} {spec : KollectSinkSpec}
variable {inv : Inventory} {s s' : SetState} {part : EnvelopePartition}

/- Every document of the part is laid out as a tree. -/
def IsTreePart (codec : Codec) (spec : KollectSinkSpec) (part : EnvelopePartition) : Prop :=
  ∀ items, itemsFromPayload codec.float part.envelope = .ok items →
      effectiveMode spec (inferResourceLayoutHints items) ≠ .document

/-
  The call for a part of a tree: what the backend was asked for, what it wrote, and how the plan
  went on. Paths that can be recorded are written as they are projected.
-/
structure TreeCall (sha : Digest) (owner : Text) (part : EnvelopePartition)
    (s s' : SetState) (wrote : List Text) where
  cfg : Git.PruneConfig
  files : List Git.FileEntry
  change : Git.TreeChange
  projected : List Text
  suppress : Bool
  hOk : Git.writeExportFiles sha s.tree cfg files = .ok change
  hTree : s'.tree = change.tree
  hOwner : cfg.pruneOwner = owner
  hPrune : cfg.prune = !suppress
  hWrote : wrote = files.map Git.FileEntry.path
  hValid : ∀ p ∈ wrote, Git.validatePrunePath p = .ok ()
  hPlan :
    PlanStep (intMember "partIndex" part.envelope).toNat
      (intMember "partTotal" part.envelope).toNat
      projected s.plan s'.plan suppress cfg.pruneKeepPaths
  hSame : (∀ p ∈ projected, Git.validatePrunePath p = .ok ()) → wrote = projected

/- The owner of an inventory's files. -/
def setOwner (cluster : Text) (inv : Inventory) : Text :=
  pruneOwnerOf cluster inv.toInventoryIdentity

theorem setOwner_ne_nil (cluster : Text) (inv : Inventory) : setOwner cluster inv ≠ [] :=
  List.cons_ne_nil _ _

theorem exportPart_tree (hGit : spec.type ≠ .other) (hTree : IsTreePart codec spec part)
    (hOk : exportPart sha codec sinkPrune spec inv.toInventoryIdentity s part = .ok s') :
    Nonempty (TreeCall sha (setOwner (clusterName spec) inv) part s s'
      (partWrites sha codec sinkPrune spec inv.toInventoryIdentity s.plan part)) := by
  rw [exportPart_eq] at hOk
  simp only [Fallible.bind_eq_ok, Fallible.mapError_eq_ok] at hOk
  rcases hOk with ⟨resolved, hResolve, tree, hRun, hEq⟩
  rcases resolveSnapshotExport_tree hGit hTree hResolve with
    ⟨gitFiles, opts, hFiles, hPrune, hOwner, hPlan⟩
  have hState := Except.ok.inj hEq
  rw [hFiles] at hRun
  rcases exportFiles_eq_ok hRun with ⟨validated, change, hValidated, hChange, hTreeEq⟩
  have hWrites : partWrites sha codec sinkPrune spec inv.toInventoryIdentity s.plan part =
        validated.map Git.FileEntry.path := by
    unfold partWrites
    rw [hResolve]
    dsimp only
    rw [hFiles]
    unfold SnapshotExport.storedPaths
    dsimp only
    unfold SnapshotExport.storedPaths.validatedPaths
    rw [hValidated]
  have hEach := (Git.validateExportFiles_ok hValidated).2.1
  refine ⟨⟨filesConfig sinkPrune opts, validated, change,
    gitFiles.map Git.FileEntry.path, opts.suppressPrune,
    hChange, ?_, hOwner, ?_, hWrites, ?_, ?_, ?_⟩⟩
  · rw [← hState]
    exact hTreeEq
  · unfold filesConfig
    rw [hPrune, Bool.or_true, Bool.true_and]
  · rw [hWrites]
    intro p hP
    rcases List.mem_map.mp hP with ⟨f, hF, hPath⟩
    rw [← hPath]
    exact hEach f hF
  · rw [← hState]
    exact hPlan
  · intro hAll
    rw [hWrites]
    have hSelf : validated = gitFiles := by
      unfold Git.validateExportFiles at hValidated
      split_ifs at hValidated
      apply Git.validateFiles_eq_self _ hValidated
      intro f hF
      exact hAll f.path (List.mem_map_of_mem hF)
    rw [hSelf]

end Part

----
-- Export Sets
----

/-
  An export set of an inventory in a cluster to a Git sink with a tree layout. The process goes on
  for at most `stopAfter` parts.
-/
structure ExportSet (sha : Digest) (codec : Codec) (cluster : Text) where
  spec : KollectSinkSpec
  isGit : spec.type ≠ .other
  ofCluster : clusterName spec = cluster
  sinkPrune : Bool
  items : List Item
  metadata : Metadata
  unmarked : metadata.partTotal = 0
  maxBytes : Int
  parts : List EnvelopePartition
  partitioned : partitionEnvelopes sha items metadata maxBytes = .ok parts
  isTree : ∀ part ∈ parts, IsTreePart codec spec part
  stopAfter : Nat

/- The branch and what the inventory's calls wrote so far. -/
structure BranchHistory where
  tree : FileTree
  wrote : List Text

namespace ExportSet

variable {sha : Digest} {codec : Codec} {cluster : Text} (inv : Inventory)
variable (e : ExportSet sha codec cluster)

/- Several parts share one plan. -/
def start (t : FileTree) : SetState := ⟨t, if 1 < e.parts.length then some .new else none⟩

def runFrom (s : SetState) (parts : List EnvelopePartition) : Progress :=
  runParts sha codec e.sinkPrune e.spec inv.toInventoryIdentity s parts

def run (t : FileTree) : Progress := e.runFrom inv (e.start t) (e.parts.take e.stopAfter)

/- Every part went through. -/
def completes (t : FileTree) : Bool :=
  decide (e.parts.length ≤ e.stopAfter) && (e.run inv t).finished

def step (h : BranchHistory) : BranchHistory :=
  ⟨(e.run inv h.tree).state.tree, h.wrote ++ (e.run inv h.tree).wrote⟩

/- After the set: what an earlier call wrote, and the set did not, is gone or on another record. -/
def NothingLeft (h : BranchHistory) : Prop :=
  ∀ p ∈ h.wrote, p ∉ (e.run inv h.tree).wrote → (e.run inv h.tree).state.tree.lookup p = none ∨
      ∃ o, o ≠ setOwner cluster inv ∧ Git.Lists sha (e.run inv h.tree).state.tree o p

/-
  Before the set: what an earlier call left on the branch without a record, the set writes again.
-/
def LeftoversExported (h : BranchHistory) : Prop :=
  ∀ p ∈ h.wrote, (h.tree.lookup p).isSome = true →
    (∀ o, ¬ Git.Lists sha h.tree o p) → p ∈ (e.run inv h.tree).wrote

end ExportSet

----
-- Runs Of Calls
----

section Calls

variable {sha : Digest} {codec : Codec} {cluster : Text} {inv : Inventory}
variable {e : ExportSet sha codec cluster} {s : SetState}

/- The records of the others stay as they are. -/
def SameOthers (sha : Digest) (owner : Text) (t t' : FileTree) : Prop :=
  ∀ o record, Git.pruneRecordPath sha o ≠ Git.pruneRecordPath sha owner →
    (Git.RecordOf sha t' o record ↔ Git.RecordOf sha t o record)

variable {part : EnvelopePartition}

theorem exportPart_call {s' : SetState} (hPart : part ∈ e.parts)
    (hOk : exportPart sha codec e.sinkPrune e.spec inv.toInventoryIdentity s part = .ok s') :
    Nonempty (TreeCall sha (setOwner cluster inv) part s s'
      (partWrites sha codec e.sinkPrune e.spec inv.toInventoryIdentity s.plan part)) := by
  have hCall := exportPart_tree e.isGit (e.isTree part hPart) hOk
  rw [e.ofCluster] at hCall
  exact hCall

namespace TreeCall

variable {s' : SetState} {wrote : List Text}

theorem owner_ne_nil (c : TreeCall sha (setOwner cluster inv) part s s' wrote) :
    c.cfg.pruneOwner ≠ [] := by
  rw [c.hOwner]
  exact setOwner_ne_nil cluster inv

theorem ownPlace (c : TreeCall sha (setOwner cluster inv) part s s' wrote)
    (hPlace : Git.OwnPlace sha s.tree (setOwner cluster inv)) :
    Git.OwnPlace sha s'.tree (setOwner cluster inv) := by
  rw [← c.hOwner] at hPlace ⊢
  rw [c.hTree]
  exact Git.ownPlace_writeExportFiles c.owner_ne_nil c.hOk hPlace

theorem sameOthers (c : TreeCall sha (setOwner cluster inv) part s s' wrote) :
    SameOthers sha (setOwner cluster inv) s.tree s'.tree := by
  intro o record hO
  rw [c.hTree]
  exact Git.recordOf_other c.owner_ne_nil c.hOk (.inr (by rw [c.hOwner]; exact hO))

theorem recordOf_suppressed (c : TreeCall sha (setOwner cluster inv) part s s' wrote)
    (hSuppress : c.suppress = true) (o : Text) (record : Git.PruneRecord) :
    Git.RecordOf sha s'.tree o record ↔ Git.RecordOf sha s.tree o record := by
  rw [c.hTree]
  exact Git.recordOf_other c.owner_ne_nil c.hOk (.inl (by rw [c.hPrune, hSuppress]; rfl))

end TreeCall

variable {parts : List EnvelopePartition}

/- Any run of calls leaves the records of others alone and writes valid paths. -/
theorem records_runFrom (hParts : ∀ part ∈ parts, part ∈ e.parts)
    (hPlace : Git.OwnPlace sha s.tree (setOwner cluster inv)) :
    Git.OwnPlace sha (e.runFrom inv s parts).state.tree (setOwner cluster inv) ∧
    SameOthers sha (setOwner cluster inv) s.tree (e.runFrom inv s parts).state.tree ∧
    ∀ p ∈ (e.runFrom inv s parts).wrote, Git.validatePrunePath p = .ok () := by
  induction parts generalizing s with
  | nil =>
    refine ⟨hPlace, fun _ _ _ => Iff.rfl, ?_⟩
    intro p hP
    cases hP
  | cons part parts ih =>
    rw [List.forall_mem_cons] at hParts
    unfold ExportSet.runFrom at ih ⊢
    rw [runParts]
    cases hCall : exportPart sha codec e.sinkPrune e.spec inv.toInventoryIdentity s part with
    | error err =>
      refine ⟨hPlace, fun _ _ _ => Iff.rfl, ?_⟩
      intro p hP
      cases hP
    | ok s' =>
      rcases exportPart_call hParts.1 hCall with ⟨c⟩
      rcases ih hParts.2 (c.ownPlace hPlace) with ⟨hLater, hSame, hValid⟩
      refine ⟨hLater, fun o record hO => (hSame o record hO).trans (c.sameOthers o record hO), ?_⟩
      intro p hP
      rcases List.mem_append.mp hP with hFirst | hRest
      · exact c.hValid p hFirst
      · exact hValid p hRest

/- A part that is not the last. -/
def IsMiddle (part : EnvelopePartition) : Prop :=
  (intMember "partIndex" part.envelope).toNat < (intMember "partTotal" part.envelope).toNat ∧
    1 < (intMember "partTotal" part.envelope).toNat

/- Parts in the middle only add their files: the plan takes the paths, and the records stay. -/
structure MiddleRun (sha : Digest) (s : SetState) (plan : PrunePlan) (progress : Progress) :
    Prop where
  records : ∀ o record, Git.RecordOf sha progress.state.tree o record ↔
    Git.RecordOf sha s.tree o record
  kept : ∀ p, p ∉ progress.wrote → progress.state.tree.lookup p = s.tree.lookup p
  planned :
    ∃ plan', progress.state.plan = some plan' ∧ (∀ p ∈ plan.paths, p ∈ plan'.paths) ∧
      ((∀ p ∈ plan'.paths, Git.validatePrunePath p = .ok ()) →
        ∀ p, p ∈ plan'.paths ↔ p ∈ plan.paths ∨ p ∈ progress.wrote)

theorem middleRun_runFrom (hParts : ∀ part ∈ parts, part ∈ e.parts ∧ IsMiddle part)
    {plan : PrunePlan} (hPlan : s.plan = some plan)
    (hFinished : (e.runFrom inv s parts).finished = true) :
    MiddleRun sha s plan (e.runFrom inv s parts) := by
  induction parts generalizing s plan with
  | nil =>
    refine ⟨fun _ _ => Iff.rfl, fun _ _ => rfl, plan, hPlan, fun _ hP => hP, ?_⟩
    intro _ p
    exact ⟨Or.inl, fun hP => hP.resolve_right List.not_mem_nil⟩
  | cons part parts ih =>
    rw [List.forall_mem_cons] at hParts
    unfold ExportSet.runFrom at ih hFinished ⊢
    rw [runParts] at hFinished ⊢
    cases hCall : exportPart sha codec e.sinkPrune e.spec inv.toInventoryIdentity s part with
    | error err =>
      rw [hCall] at hFinished
      cases hFinished
    | ok s' =>
      rw [hCall] at hFinished
      rcases exportPart_call hParts.1.1 hCall with ⟨c⟩
      have hMiddle := c.hPlan.of_middle hParts.1.2.2 hParts.1.2.1 hPlan
      rcases ih hParts.2 hMiddle.2 hFinished with
        ⟨hRecords, hKept, plan', hPlan', hMore, hPaths⟩
      have hOff : c.cfg.prune = false := by
        rw [c.hPrune, hMiddle.1]
        rfl
      refine ⟨fun o record => (hRecords o record).trans (c.recordOf_suppressed hMiddle.1 o record),
        ?_, plan', hPlan', ?_, ?_⟩
      · intro p hP
        rw [List.mem_append, not_or] at hP
        refine (hKept p hP.2).trans ?_
        rw [c.hTree]
        apply Git.lookup_suppressed c.owner_ne_nil hOff c.hOk
        rw [← c.hWrote]
        exact hP.1
      · intro p hP
        exact hMore p (List.mem_append_left _ hP)
      · intro hValid p
        have hAdded : ∀ q ∈ plan.paths ++ c.projected, q ∈ plan'.paths := hMore
        have hWrote := c.hSame fun q hQ => hValid q (hAdded q (List.mem_append_right _ hQ))
        have hMem := iff_of_eq (congrArg (p ∈ ·) hWrote)
        rw [hPaths hValid p, List.mem_append, ← or_assoc]
        apply or_congr_left
        exact List.mem_append.trans (or_congr_right hMem.symm)

/- The last of several parts. -/
def IsLast (part : EnvelopePartition) : Prop :=
  (intMember "partTotal" part.envelope).toNat ≤ (intMember "partIndex" part.envelope).toNat ∧
    1 < (intMember "partTotal" part.envelope).toNat

/- What a prune does: other paths that were on record are gone, and the rest stays. -/
def Sweeps (sha : Digest) (owner : Text) (before after : FileTree) (paths : List Text) : Prop :=
  ∀ p, Git.validatePrunePath p = .ok () → p ∉ paths →
    (Git.Lists sha before owner p → after.lookup p = none) ∧
      (¬ Git.Lists sha before owner p → after.lookup p = before.lookup p)

namespace Sweeps

variable {owner : Text} {before middle after : FileTree} {paths paths' first last : List Text}

theorem congr (h : Sweeps sha owner before after paths) (hPaths : ∀ p, p ∈ paths ↔ p ∈ paths') :
    Sweeps sha owner before after paths' :=
  fun p hValid hP => h p hValid fun hMem => hP ((hPaths p).mp hMem)

/- Calls before the prune that only wrote what it keeps. -/
theorem of_middle (h : Sweeps sha owner middle after (first ++ last))
    (hKept : ∀ p, p ∉ first → middle.lookup p = before.lookup p)
    (hRecords : ∀ o record, Git.RecordOf sha middle o record ↔ Git.RecordOf sha before o record) :
    Sweeps sha owner before after (first ++ last) := by
  intro p hValid hP
  have hLists : Git.Lists sha middle owner p ↔ Git.Lists sha before owner p :=
    exists_congr fun record => and_congr_left' (hRecords owner record)
  obtain ⟨hGone, hStays⟩ := h p hValid hP
  rw [List.mem_append, not_or] at hP
  rw [hLists] at hGone hStays
  exact ⟨hGone, fun hNot => (hStays hNot).trans (hKept p hP.1)⟩

end Sweeps

namespace TreeCall

variable {part : EnvelopePartition} {s' : SetState} {wrote : List Text}
variable (c : TreeCall sha (setOwner cluster inv) part s s' wrote)

include c

theorem sweeps (hOn : c.suppress = false) : Sweeps sha (setOwner cluster inv) s.tree s'.tree
      (Git.pruneKeepSet c.cfg (c.files.map Git.FileEntry.path)) := by
  have hPrune : c.cfg.prune = true := by
    rw [c.hPrune, hOn]
    rfl
  intro p hValid hP
  have hSwept := Git.lookup_pruned c.owner_ne_nil hPrune c.hOk hValid hP
  rw [c.hOwner, ← c.hTree] at hSwept
  exact hSwept

theorem sweeps_single (hSingle : (intMember "partTotal" part.envelope).toNat ≤ 1) :
    Sweeps sha (setOwner cluster inv) s.tree s'.tree wrote := by
  rcases c.hPlan.of_single hSingle with ⟨hOn, hKeep⟩
  have hSweeps := c.sweeps hOn
  rw [Git.pruneKeepSet, if_pos hKeep, ← c.hWrote] at hSweeps
  exact hSweeps

/- The last part keeps what is planned and what it writes. -/
theorem sweeps_last (hLast : IsLast part) {plan : PrunePlan} (hPlan : s.plan = some plan) :
    (∀ p ∈ plan.paths, Git.validatePrunePath p = .ok ()) ∧
      Sweeps sha (setOwner cluster inv) s.tree s'.tree (plan.paths ++ wrote) := by
  rcases c.hPlan.of_last hLast.2 hLast.1 hPlan with ⟨hOn, data, manifest, hProjected, hKeep⟩
  have hSet : ∀ p,
      p ∈ Git.pruneKeepSet c.cfg (c.files.map Git.FileEntry.path) ↔
        p ∈ plan.paths ++ c.projected := by
    intro p
    rw [Git.pruneKeepSet, if_neg (by rw [hKeep]; simp), hKeep,
      hProjected, List.mem_append, PrunePlan.mem_union, ← List.append_assoc, List.mem_append]
    rfl
  have hKept : ∀ p ∈ plan.paths ++ c.projected,
      Git.validatePrunePath p = .ok () := fun p hP =>
    Git.valid_of_mem_keepSet c.owner_ne_nil c.hOk ((hSet p).mpr hP)
  rw [List.forall_mem_append] at hKept
  have hSweeps := (c.sweeps hOn).congr hSet
  rw [← c.hSame hKept.2] at hSweeps
  exact ⟨hKept.1, hSweeps⟩

end TreeCall

end Calls

----
-- Sets That Complete
----

namespace ExportSet

variable {sha : Digest} {codec : Codec} {cluster : Text} {inv : Inventory}

section Numbers

variable (e : ExportSet sha codec cluster)

theorem parts_ne_nil : e.parts ≠ [] := by
  intro hNil
  rcases exists_groups e.partitioned with ⟨groups, hGroups, hEq⟩
  have hNone : groups = [] := by
    rw [hNil] at hEq
    exact List.mapIdx_eq_nil_iff.mp hEq.symm
  have hItems := flatten_partitionItemGroups hGroups
  rw [hNone] at hItems hGroups
  -- no items make one empty group
  rw [← hItems] at hGroups
  unfold partitionItemGroups at hGroups
  split_ifs at hGroups with _ hEmpty
  · cases hGroups
  · cases hGroups
  · exact hEmpty rfl

theorem number_getElem {k : Nat} (hK : k < e.parts.length) :
    intMember "partTotal" e.parts[k].envelope =
        (if 1 < e.parts.length then (e.parts.length : Int) else 0) ∧
      (1 < e.parts.length → intMember "partIndex" e.parts[k].envelope = ((k + 1 : Nat) : Int)) := by
  rcases getElem?_partitionEnvelopes e.partitioned hK with ⟨group, hPart, -⟩
  rw [List.getElem?_eq_getElem hK] at hPart
  rw [Option.some.inj hPart]
  have hMarks := marks_envelopeJson sha group (partMetadata e.metadata (k + 1) e.parts.length)
  unfold partOf
  rw [hMarks.total, hMarks.index]
  unfold partMetadata
  split_ifs with hMany
  · exact ⟨rfl, fun _ => rfl⟩
  · rw [e.unmarked]
    exact ⟨rfl, fun h => absurd h hMany⟩

/- One part alone, or several with a last one. -/
theorem single_or_several :
    (∃ part, e.parts = [part] ∧ (intMember "partTotal" part.envelope).toNat ≤ 1) ∨
    1 < e.parts.length ∧ ∃ init last, e.parts = init ++ [last] ∧
        (∀ part ∈ init, part ∈ e.parts ∧ IsMiddle part) ∧ IsLast last := by
  have hNe := e.parts_ne_nil
  by_cases hMany : 1 < e.parts.length
  · right
    have hNumber : ∀ k (hK : k < e.parts.length),
        (intMember "partTotal" e.parts[k].envelope).toNat = e.parts.length ∧
          (intMember "partIndex" e.parts[k].envelope).toNat = k + 1 := by
      intro k hK
      rcases e.number_getElem hK with ⟨hTotal, hIndex⟩
      rw [hTotal, hIndex hMany, if_pos hMany]
      exact ⟨rfl, rfl⟩
    refine ⟨hMany, e.parts.dropLast, e.parts.getLast hNe,
      (List.dropLast_append_getLast hNe).symm, ?_, ?_⟩
    · intro part hPart
      refine ⟨List.mem_of_mem_dropLast hPart, ?_⟩
      rcases List.getElem_of_mem hPart with ⟨k, hK, hEq⟩
      rw [List.getElem_dropLast] at hEq
      rw [List.length_dropLast] at hK
      have hAt := hNumber k (by omega)
      rw [← hEq, IsMiddle, hAt.1, hAt.2]
      omega
    · have hAt := hNumber (e.parts.length - 1) (by omega)
      rw [List.getLast_eq_getElem, IsLast, hAt.1, hAt.2]
      omega
  · left
    have hOne : e.parts.length = 1 := by
      have hPos := List.length_pos_of_ne_nil hNe
      omega
    rcases List.length_eq_one_iff.mp hOne with ⟨part, hPart⟩
    refine ⟨part, hPart, ?_⟩
    have hTotal := (e.number_getElem (k := 0) (by omega)).1
    rw [if_neg hMany] at hTotal
    simp only [hPart, List.getElem_cons_zero] at hTotal
    rw [hTotal]
    decide

end Numbers

variable {e : ExportSet sha codec cluster} {t : FileTree}

theorem run_of_completes (hDone : e.completes inv t = true) :
    e.run inv t = e.runFrom inv (e.start t) e.parts ∧
      (e.runFrom inv (e.start t) e.parts).finished = true := by
  rw [completes, Bool.and_eq_true, decide_eq_true_eq] at hDone
  have hAll : e.run inv t = e.runFrom inv (e.start t) e.parts := by
    unfold run
    rw [List.take_of_length_le hDone.1]
  rw [← hAll]
  exact ⟨rfl, hDone.2⟩

/- A set that completes prunes for all its parts. -/
theorem sweeps_of_completes (hDone : e.completes inv t = true) :
    Sweeps sha (setOwner cluster inv) t (e.run inv t).state.tree (e.run inv t).wrote := by
  rcases run_of_completes hDone with ⟨hRun, hFinished⟩
  rw [hRun]
  unfold runFrom
  rcases e.single_or_several with ⟨part, hPart, hSingle⟩ | ⟨hMany, init, last, hParts, hInit, hLast⟩
  · have hConcat := runParts_concat sha codec e.sinkPrune e.spec
      inv.toInventoryIdentity (e.start t) [] part
    rw [List.nil_append, ← hPart] at hConcat
    rcases hConcat hFinished with ⟨-, hCall, hWrote⟩
    rcases exportPart_call (by rw [hPart]; simp) hCall with ⟨c⟩
    rw [hWrote]
    exact c.sweeps_single hSingle
  · have hConcat := runParts_concat sha codec e.sinkPrune e.spec
      inv.toInventoryIdentity (e.start t) init last
    rw [← hParts] at hConcat
    rcases hConcat hFinished with ⟨hFirst, hCall, hWrote⟩
    have hPlan : (e.start t).plan = some .new := by exact if_pos hMany
    rcases middleRun_runFrom hInit hPlan hFirst with
      ⟨hRecords, hKept, plan, hPlan', -, hPaths⟩
    rcases exportPart_call (by rw [hParts]; simp) hCall with ⟨c⟩
    rcases c.sweeps_last hLast hPlan' with ⟨hPlanned, hSweeps⟩
    rw [hWrote]
    refine Sweeps.of_middle (hSweeps.congr ?_) hKept hRecords
    intro p
    rw [List.mem_append, hPaths hPlanned p, List.mem_append]
    exact or_congr_left (or_iff_right List.not_mem_nil)

/- What the records of others list is the same before a set and after it. -/
theorem lists_others (hPlace : Git.OwnPlace sha t (setOwner cluster inv)) {o p : Text}
    (hO : o ≠ setOwner cluster inv) :
    Git.Lists sha (e.run inv t).state.tree o p ↔ Git.Lists sha t o p := by
  rcases records_runFrom (e := e) (s := e.start t) (fun part hPart => List.mem_of_mem_take hPart)
    hPlace with ⟨hLater, hSame, -⟩
  constructor
  · rintro ⟨record, hRecord, hP⟩
    have hPath := fun hEq => hO (hLater o record hRecord hEq)
    exact ⟨record, (hSame o record hPath).mp hRecord, hP⟩
  · rintro ⟨record, hRecord, hP⟩
    have hPath := fun hEq => hO (hPlace o record hRecord hEq)
    exact ⟨record, (hSame o record hPath).mpr hRecord, hP⟩

/-
  A set that completes leaves nothing behind exactly when it exports what was on the branch without
  a record.
-/
theorem nothingLeft_iff {h : BranchHistory}
    (hPlace : Git.OwnPlace sha h.tree (setOwner cluster inv))
    (hValid : ∀ p ∈ h.wrote, Git.validatePrunePath p = .ok ())
    (hDone : e.completes inv h.tree = true) : e.NothingLeft inv h ↔ e.LeftoversExported inv h := by
  have hSweeps := sweeps_of_completes hDone
  constructor
  · intro hNothing p hP hThere hFree
    by_contra hNot
    have hStays := (hSweeps p (hValid p hP) hNot).2 (hFree _)
    rcases hNothing p hP hNot with hGone | ⟨o, hO, hListed⟩
    · rw [← hStays, hGone] at hThere
      cases hThere
    · exact hFree o ((lists_others hPlace hO).mp hListed)
  · intro hExported p hP hNot
    obtain ⟨hGone, hStays⟩ := hSweeps p (hValid p hP) hNot
    by_cases hOwn : Git.Lists sha h.tree (setOwner cluster inv) p
    · exact .inl (hGone hOwn)
    · by_cases hForeign : ∃ o, o ≠ setOwner cluster inv ∧ Git.Lists sha h.tree o p
      · rcases hForeign with ⟨o, hO, hListed⟩
        exact .inr ⟨o, hO, (lists_others hPlace hO).mpr hListed⟩
      · left
        rw [hStays hOwn]
        by_contra hThere
        apply hNot
        apply hExported p hP (Option.isSome_iff_ne_none.mpr hThere)
        intro o hListed
        by_cases hO : o = setOwner cluster inv
        · exact hOwn (hO ▸ hListed)
        · exact hForeign ⟨o, hO, hListed⟩

end ExportSet

----
-- Runs Of Sets
----

/-
  A branch that an inventory exports to. The hash of its owner is not that of another owner with a
  record on the branch.
-/
structure SetBranch where
  sha : Digest
  codec : Codec
  cluster : Text
  inv : Inventory
  tree : FileTree
  ownPlace : Git.OwnPlace sha tree (setOwner cluster inv)

namespace SetBranch

variable (b : SetBranch)

abbrev Set : Type := ExportSet b.sha b.codec b.cluster

def start : BranchHistory := ⟨b.tree, []⟩

def step (h : BranchHistory) (e : b.Set) : BranchHistory := e.step b.inv h

/- If the set completes, nothing of an earlier call is left. -/
def LeavesNothing (h : BranchHistory) (e : b.Set) : Prop :=
  e.completes b.inv h.tree = true → e.NothingLeft b.inv h

def ExportsLeftovers (h : BranchHistory) (e : b.Set) : Prop :=
  e.completes b.inv h.tree = true → e.LeftoversExported b.inv h

/- The record file of the inventory is its own, and what is written can be on one. -/
def InOrder (h : BranchHistory) : Prop :=
  Git.OwnPlace b.sha h.tree (setOwner b.cluster b.inv) ∧
    ∀ p ∈ h.wrote, Git.validatePrunePath p = .ok ()

theorem inOrder_start : b.InOrder b.start := ⟨b.ownPlace, List.forall_mem_nil _⟩

theorem inOrder_step (h : BranchHistory) (e : b.Set) (hOrder : b.InOrder h) :
    b.InOrder (b.step h e) := by
  rcases hOrder with ⟨hPlace, hWrote⟩
  rcases records_runFrom (e := e) (s := e.start h.tree)
    (fun part hPart => List.mem_of_mem_take hPart) hPlace with ⟨hLater, -, hValid⟩
  refine ⟨hLater, ?_⟩
  unfold step ExportSet.step
  rw [List.forall_mem_append]
  exact ⟨hWrote, hValid⟩

end SetBranch

def emptyBranch : SetBranch where
  sha := paddedDigest
  codec := plainCodec
  cluster := "default"
  inv := webInventory
  tree := ∅
  ownPlace _ _ hRecord := absurd hRecord.mem_childNames (by simp [FileTree.mem_childNames])

/- A file per target. -/
theorem isTreePart_treeSpec (template : Text) (part : EnvelopePartition) :
    IsTreePart plainCodec (treeSpec template) part := by
  intro items _
  unfold effectiveMode
  rw [show (treeSpec template).modeExplicit = true from rfl,
    Bool.not_true, Bool.and_false, if_neg Bool.false_ne_true]
  exact LayoutMode.noConfusion

/- Two targets in two parts; the process stops after one. -/
def stoppedSet : emptyBranch.Set where
  spec := treeSpec "{targetName}"
  isGit := by decide
  ofCluster := rfl
  sinkPrune := false
  items := [targetRow "1", targetRow "2"]
  metadata := rowsMetadata
  unmarked := rfl
  maxBytes := 330
  parts := [partOf paddedDigest rowsMetadata 1 2 [targetRow "1"],
      partOf paddedDigest rowsMetadata 2 2 [targetRow "2"]]
  partitioned := by decide +kernel
  isTree part _ := isTreePart_treeSpec _ part
  stopAfter := 1

/- The first target is gone, and one part is enough. -/
def laterSet : emptyBranch.Set where
  spec := treeSpec "{targetName}"
  isGit := by decide
  ofCluster := rfl
  sinkPrune := false
  items := [targetRow "2"]
  metadata := rowsMetadata
  unmarked := rfl
  maxBytes := 330
  parts := [partOf paddedDigest rowsMetadata 1 1 [targetRow "2"]]
  partitioned := by decide +kernel
  isTree part _ := isTreePart_treeSpec _ part
  stopAfter := 1

end Sink
end Kollect
