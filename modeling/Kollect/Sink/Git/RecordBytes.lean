import Kollect.Sink.Git.Prune
import Kollect.Sink.LayoutExport

/-
  The bytes of recorded paths.

  A segment is cut at a number of bytes, and the cut may go through a rune. The bytes that are left
  are no text, and `encoding/json` writes a replacement rune for each of them. The record of an
  export then names other files than the export has written.

  Key theorems include:
    * `recordOf_writeExportFiles`
    * `readsBack_iff`
-/

namespace Kollect
namespace Sink
namespace Git

variable {sha : Digest} {t : FileTree} {cfg : PruneConfig} {files : List FileEntry}
variable {change : TreeChange}

/- The record is read, and its paths are the bytes of the files. -/
def ReadsBack (sha : Digest) (t : FileTree) (owner : Text) (paths : List Text) : Prop :=
  ∃ record, RecordOf sha t owner record ∧
    (record.paths.map Text.bytes).Perm (paths.map Text.bytes)

/- A later export of the owner removes precisely the files that it does not keep. -/
def LaterRemoves (sha : Digest) (t : FileTree) (owner : Text) (paths : List Text) : Prop :=
  ∀ cfg files change, cfg.pruneOwner = owner → cfg.prune = true →
    writeExportFiles sha t cfg files = .ok change →
      (∀ p, p ∈ change.removed ↔ p ∈ paths ∧ p ∉ pruneKeepSet cfg (files.map FileEntry.path)) ∧
      ∀ p ∈ change.removed, change.tree.lookup p = none

/- The paths that an export keeps, each once. -/
def keptPaths (cfg : PruneConfig) (files : List FileEntry) : List Text :=
  (pruneKeepSet cfg (files.map FileEntry.path)).dedup

/- The record of an accepted export lists its paths as `json.Marshal` writes them. -/
theorem recordOf_writeExportFiles (hOwner : cfg.pruneOwner ≠ []) (hPrune : cfg.prune = true)
    (hOk : writeExportFiles sha t cfg files = .ok change) :
    ∃ current : List Text, current.Perm (keptPaths cfg files) ∧
      RecordOf sha change.tree cfg.pruneOwner
        ⟨1, cfg.pruneOwner, current.map Text.marshalled⟩ := by
  obtain ⟨owners, current, size, hPaths, hRead⟩ :=
    readPruneRecord_writeExportFiles hOwner hPrune hOk
  refine ⟨Text.sort current, ?_, rfl, size, hRead⟩
  rw [keptPaths, List.perm_ext_iff_of_nodup (Text.nodup_sort.mpr hPaths.nodup) (List.nodup_dedup _)]
  intro p
  rw [Text.mem_sort, List.mem_dedup]
  exact hPaths.mem_iff p

/- Replaced bytes make a list of paths longer. -/
theorem isText_of_perm_bytes {paths current : List Text} (hPerm : current.Perm paths)
    (hBytes : ((current.map Text.marshalled).map Text.bytes).Perm (paths.map Text.bytes)) :
    ∀ p ∈ paths, Text.IsText p := by
  have hSame := ((hBytes.trans (hPerm.map Text.bytes).symm).map List.length).sum_eq
  simp only [List.map_map, Function.comp_def, Text.length_bytes_marshalled,
    List.sum_map_add] at hSame
  have hNone : (current.map fun p => 2 * p.countP Text.isRaw).sum = 0 := by omega
  intro p hP
  have hZero := (List.sum_eq_zero_iff.mp hNone) (2 * p.countP Text.isRaw)
    (List.mem_map.mpr ⟨p, hPerm.mem_iff.mpr hP, rfl⟩)
  rw [Text.isText_iff_countP]
  omega

theorem laterRemoves_of_recordOf {owner : Text} {paths : List Text} (hOwner : owner ≠ [])
    {record : PruneRecord} (hRecord : RecordOf sha t owner record)
    (hPaths : ∀ p, p ∈ record.paths ↔ p ∈ paths) : LaterRemoves sha t owner paths := by
  rintro cfg files change rfl hPrune hOk
  obtain ⟨-, loaded, current, hLoad, hKept, hExport⟩ := writeExportFiles_owned hOwner hOk
  have hListed : ∀ p, p ∈ loaded.pathsOf cfg.pruneOwner ↔ p ∈ paths := by
    intro p
    rw [mem_pathsOf_iff hLoad, ← hPaths]
    refine ⟨?_, fun hP => ⟨record, hRecord, hP⟩⟩
    rintro ⟨record', hRecord', hP⟩
    rw [hRecord.unique hRecord']
    exact hP
  cases hExport with
  | suppressed hOff =>
    rw [hPrune] at hOff
    cases hOff
  | @advanced _ plan hPlan filled cleared final hFill hClear hWrite =>
    obtain ⟨-, -, -, rfl⟩ := planOwnedPrune_ok hPlan
    constructor
    · intro p
      rw [Text.mem_sort, List.mem_filter, hListed, decide_eq_true_eq, hKept.mem_iff]
    · intro p hP
      have hValid : validatePrunePath p = .ok () := (loadPruneRecords_sound hLoad).1.valid_pathsOf
        (List.mem_filter.mp (Text.mem_sort.mp hP)).1
      rw [FileTree.lookup_writeFile hWrite, if_neg, FileTree.lookup_removeFiles hClear, if_pos hP]
      rintro rfl
      exact not_atMetadata_of_valid hValid (atMetadata_recordPath sha _)

/- Segments of at most two bytes. -/
def shortLayout (cluster : Text) : ResolvedLayout where
  __ := resolve (treeSpec "{cluster}/{sourceName}") "a" "web" 1 ⟨false, []⟩
  cluster := cluster
  filename := some ⟨none, none, some 2⟩

def ownedBy (owner : Text) : PruneConfig := ⟨owner, true, [], []⟩

def exportAt (t : FileTree) (p : Text) : Option TreeChange :=
  (writeExportFiles paddedDigest t (ownedBy "o") [⟨p, "row"⟩]).toOption

theorem exists_exportAt {p : Text} (hDone : (exportAt ∅ p).isSome = true) :
    ∃ change, exportAt ∅ p = some change ∧
      writeExportFiles paddedDigest ∅ (ownedBy "o") [⟨p, "row"⟩] = .ok change := by
  unfold exportAt at hDone ⊢
  cases hRun : writeExportFiles paddedDigest ∅ (ownedBy "o") [⟨p, "row"⟩] with
  | error e =>
    rw [hRun] at hDone
    cases hDone
  | ok change => exact ⟨change, rfl, rfl⟩

def cutPath : Text := ['a', Text.rawByte 0xc3, '/', 'n']

end Git
end Sink
end Kollect
