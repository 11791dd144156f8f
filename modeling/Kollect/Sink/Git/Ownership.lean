import Kollect.Foundation.Run
import Kollect.Sink.ObjectPath
import Kollect.Sink.Git.Prune
import Mathlib.Algebra.Order.BigOperators.Group.List
import Mathlib.Algebra.Order.Ring.Nat

/-
  Runs of owned exports and releases on one branch (`sink/git/prune_owned.go`,
  `sink/git/release.go`).

  `Ledger t recs` says that the ownership records of the tree are exactly `recs`, that they are what
  `loadPruneRecords` accepts, and that they list each path once. Every accepted operation leads from
  a tree with a ledger to a tree with a ledger; a rejected one changes nothing.

  An accepted operation leaves the files and the record of every other owner alone, with one
  exception: a release may be given a candidate path that matches another owner's record file, which
  is not among the protected paths.

  Key theorems include:
    * `ledger_releaseExport`
    * `ownership_along_run`
-/

namespace Kollect
namespace Sink
namespace Git

----
-- Releases
----

/- What a deletion removes, decided before it removes. -/
structure ReleasePlan where
  candidates : List Text
  guarded : GoMap Text Text
  exact : List Text

/- The file exists, after its path was checked. -/
def regularFileExists (t : FileTree) (p : Text) : Except PruneError Bool := do
  checkPruneFile t p
  pure (t.stat p).isSome

variable (sha : Digest) (t : FileTree)

/- The owner's record path, when its record is there. -/
def ownRecord (owner : Text) : Except PruneError (Option Text) :=
  if maxOwnerBytes < Text.byteLen owner then .error .releaseOwnerTooLong
  else do
    let recordPath := pruneRecordPath sha owner
    if ← regularFileExists t recordPath then do
      let (record, _) ← readPruneRecord sha t (pruneRecordName sha owner) maxPruneMetadataBytes
      if record.owner ≠ owner then .error (.recordNamesOther recordPath record.owner)
      else pure (some recordPath)
    else pure none

/- The existing files among the paths. -/
def existingFiles (t : FileTree) : List Text → Except PruneError (List Text)
  | [] => .ok []
  | p :: paths => do
      let found ← regularFileExists t p
      let rest ← existingFiles t paths
      pure (if found then p :: rest else rest)

/- The claims of everyone but the owner. -/
def foreignClaims (owners : GoMap Text Text) (owner : Text) : GoMap Text Text :=
  owners.filterKeys fun p => decide (owner = [] ∨ owners.lookup p ≠ some owner)

def planRelease (owner : Text)
    (releaseOnly : Bool) (candidates : List Text) : Except PruneError ReleasePlan :=
  if releaseOnly then
    if owner = [] then .error .releaseWithoutOwner
    else do
      let recordPath ← ownRecord sha t owner
      pure ⟨[], ∅, recordPath.toList⟩
  else do
    let loaded ← loadPruneRecords sha t
    let guarded := foreignClaims loaded.owners owner
    if owner = [] then pure ⟨candidates, guarded, []⟩
    else
      match loaded.records.lookup owner with
      | none => pure ⟨candidates, guarded, []⟩
      | some record => do
          let own ← existingFiles t record.paths
          pure ⟨candidates, guarded, own ++ [pruneRecordPath sha owner]⟩

/- The listed files that the matcher removes. -/
def matchedFiles (t : FileTree) (guarded : GoMap Text Text) (m : KeyMatcher) : List Text :=
  (t.filesIn m.listDir).filter fun p => m.matchesKey p && (guarded.lookup p).isNone

/- Remove what the matchers find, one matcher at a time. -/
def removeCandidates (guarded : GoMap Text Text) :
    FileTree → List KeyMatcher → Except PruneError (FileTree × List Text)
  | t, [] => .ok (t, [])
  | t, m :: matchers =>
    if t.blocked m.listDir then .error (.readDirFailed m.listDir)
    else do
      let found := matchedFiles t guarded m
      let t ← fsResult .removeFailed (t.removeFiles found)
      let (t, rest) ← removeCandidates guarded t matchers
      pure (t, found ++ rest)

def removeExact : FileTree → List Text → Except PruneError (FileTree × List Text)
  | t, [] => .ok (t, [])
  | t, p :: paths => do
      if ← regularFileExists t p then do
        let t ← fsResult .removeFailed (t.removeFile p)
        let (t, rest) ← removeExact t paths
        pure (t, p :: rest)
      else removeExact t paths

/- A deletion as a whole: plan, candidates, exact paths. -/
def releaseExport (owner : Text) (keepFiles : Bool)
    (candidates : List Text) : Except PruneError TreeChange := do
  let plan ← planRelease sha t owner keepFiles candidates
  let (t, matched) ← removeCandidates plan.guarded t (plan.candidates.flatMap cleanupMatchers)
  let (t, exact) ← removeExact t plan.exact
  pure ⟨t, [], matched ++ exact⟩

----
-- Runs
----

/- An operation of an owner on the branch. -/
inductive OwnershipOp where
  | writeExport (cfg : PruneConfig) (files : List FileEntry)
  | release (owner : Text) (keepFiles : Bool) (candidates : List Text)

namespace OwnershipOp

def owner : OwnershipOp → Text
  | writeExport cfg _ => cfg.pruneOwner
  | release owner _ _ => owner

def run : OwnershipOp → Except PruneError TreeChange
  | writeExport cfg files => writeExportFiles sha t cfg files
  | release owner keepFiles candidates => releaseExport sha t owner keepFiles candidates

/- The paths that the operation would record are text. -/
def HasText : OwnershipOp → Prop
  | writeExport cfg files =>
    ∀ p ∈ pruneKeepSet cfg (files.map FileEntry.path), Text.IsText p
  | release _ _ _ => True

/- A rejected operation commits nothing. -/
def step (op : OwnershipOp) : FileTree :=
  match op.run sha t with
  | .ok change => change.tree
  | .error _ => t

end OwnershipOp

----
-- The Ledger Of A Tree
----

/- The records of a tree: owners and the paths they list. -/
abbrev RecordBook := GoMap Text (List Text)

def recordBytes (owners : List Text) : Nat :=
  (owners.map fun o => sizeAt t (pruneRecordPath sha o)).sum

/- The paths of a record that is within the bounds and of text. -/
structure Recordable (paths : List Text) : Prop where
  bounded : paths.length ≤ maxPrunePaths
  nodup : paths.Nodup
  valid : ∀ p ∈ paths, validatePrunePath p = .ok ()
  text : ∀ p ∈ paths, Text.IsText p

/- The records of the tree are `recs`, written by the known owners and without a common path. -/
structure Ledger
    (sha : Digest) (known : Text → Prop) (t : FileTree) (recs : RecordBook) : Prop where
  file : ∀ o paths, recs.lookup o = some paths →
    t.lookup (pruneRecordPath sha o) = some (encodeRecord ⟨1, o, paths⟩)
  recorded : ∀ p ∈ t.keys, inMetadata p = true → ∃ o ∈ recs.keys, p = pruneRecordPath sha o
  noFile : t.lookup pruneMetadataDir = none
  isKnown : ∀ o ∈ recs.keys, known o
  owner : ∀ o ∈ recs.keys, o ≠ [] ∧ Text.byteLen o ≤ maxOwnerBytes
  fits : ∀ o paths, recs.lookup o = some paths → Recordable paths
  single : ∀ o o' paths paths' p, recs.lookup o = some paths →
    recs.lookup o' = some paths' → p ∈ paths → p ∈ paths' → o = o'
  count : recs.keys.length ≤ maxPruneOwners
  bytes : recordBytes sha t recs.keys ≤ maxPruneMetadataBytes

/- Distinct known owners have distinct digests. -/
def CollisionFree (sha : Digest) (known : Text → Prop) : Prop :=
  ∀ o o', known o → known o' → sha.hex o = sha.hex o' → o = o'

theorem recordPath_injective {sha : Digest} {known : Text → Prop}
    (hSha : CollisionFree sha known) {o o' : Text} (hO : known o) (hO' : known o')
    (hEq : pruneRecordPath sha o = pruneRecordPath sha o') : o = o' :=
  hSha o o' hO hO' (hex_eq_of_recordPath_eq hEq)

theorem mem_keys_iff_exists {recs : RecordBook} {o : Text} :
    o ∈ recs.keys ↔ ∃ paths, recs.lookup o = some paths := by
  rw [← AList.mem_keys, ← AList.lookup_isSome, Option.isSome_iff_exists]

theorem ledger_empty (sha : Digest) (known : Text → Prop) : Ledger sha known ∅ ∅ where
  file := by simp
  recorded := by simp
  noFile := rfl
  isKnown := by simp
  owner := by simp
  fits := by simp
  single := by simp
  count := by simp
  bytes := by simp [recordBytes]

----
-- Loading A Ledger
----

/- What is loaded is the part of the book that is `done`. -/
structure LoadedPart (recs : RecordBook) (done : Text → Prop) (loaded : PruneRecords) : Prop where
  owners : ∀ p o, loaded.owners.lookup p = some o ↔
    done o ∧ ∃ paths, recs.lookup o = some paths ∧ p ∈ paths
  records : ∀ o record, loaded.records.lookup o = some record ↔
    done o ∧ ∃ paths, recs.lookup o = some paths ∧ record = ⟨1, o, paths⟩

section Load

variable {sha : Digest} {known : Text → Prop} {t : FileTree} {recs : RecordBook}

theorem LoadedPart.insert {done : Text → Prop} {loaded : PruneRecords}
    (hLoaded : LoadedPart recs done loaded) {o : Text}
    {paths : List Text} (hRecord : recs.lookup o = some paths) {owners : GoMap Text Text}
    (hOwners : ∀ p, owners.lookup p = if p ∈ paths then some o else loaded.owners.lookup p)
    (hSingle : ∀ p ∈ paths, loaded.owners.lookup p = none) (total : Nat) :
    LoadedPart recs (fun o' => done o' ∨ o' = o)
      ⟨owners, loaded.records.insert o ⟨1, o, paths⟩, total⟩ where
  owners p o' := by
    rw [hOwners p]
    split_ifs with hMem
    · constructor
      · rintro hEq
        obtain rfl : o = o' := by simpa using hEq
        exact ⟨.inr rfl, paths, hRecord, hMem⟩
      · rintro ⟨hDone | rfl, paths', hRecord', hMem'⟩
        · have hNone := hSingle p hMem
          rw [(hLoaded.owners p o').mpr ⟨hDone, paths', hRecord', hMem'⟩] at hNone
          cases hNone
        · rfl
    · rw [hLoaded.owners p o']
      constructor
      · rintro ⟨hDone, hRest⟩
        exact ⟨.inl hDone, hRest⟩
      · rintro ⟨hDone | rfl, paths', hRecord', hMem'⟩
        · exact ⟨hDone, paths', hRecord', hMem'⟩
        · rw [hRecord] at hRecord'
          obtain rfl : paths = paths' := by simpa using hRecord'
          exact absurd hMem' hMem
  records o' record := by
    rw [GoMap.lookup_insert_ite]
    split_ifs with hO
    · subst hO
      constructor
      · rintro hEq
        exact ⟨.inr rfl, paths, hRecord, by simpa using hEq.symm⟩
      · rintro ⟨-, paths', hRecord', rfl⟩
        rw [hRecord] at hRecord'
        obtain rfl : paths = paths' := by simpa using hRecord'
        rfl
    · rw [hLoaded.records o' record]
      constructor
      · rintro ⟨hDone, hRest⟩
        exact ⟨.inl hDone, hRest⟩
      · rintro ⟨hDone | hEq, hRest⟩
        · exact ⟨hDone, hRest⟩
        · exact absurd hEq hO

/-
  Reading the records of the owners one after another. The rest of the records is within what
  remains of the bound.
-/
theorem loadEntries_of_ledger (hLedger : Ledger sha known t recs) (os : List Text)
    (done : Text → Prop) (loaded : PruneRecords) (hNodup : os.Nodup)
    (hOwners : ∀ o ∈ os, o ∈ recs.keys ∧ ¬ done o) (hLoaded : LoadedPart recs done loaded)
    (hRoom : loaded.total + recordBytes sha t os ≤ maxPruneMetadataBytes) :
    ∃ loaded', loadEntries sha t loaded (os.map (pruneRecordName sha)) = .ok loaded' ∧
      LoadedPart recs (fun o => done o ∨ o ∈ os) loaded' ∧
      loaded'.total = loaded.total + recordBytes sha t os := by
  induction os generalizing done loaded with
  | nil => exact ⟨loaded, rfl, by simpa using hLoaded, by simp [recordBytes]⟩
  | cons o os ih =>
    rw [List.nodup_cons] at hNodup
    obtain ⟨hMem, hNotDone⟩ := hOwners o List.mem_cons_self
    obtain ⟨paths, hRecord⟩ := mem_keys_iff_exists.mp hMem
    have hRoomSplit : loaded.total +
        (sizeAt t (pruneRecordPath sha o) + recordBytes sha t os) ≤ maxPruneMetadataBytes := by
      simpa [recordBytes] using hRoom
    have hLeft : sizeAt t (pruneRecordPath sha o) ≤ maxPruneMetadataBytes - loaded.total := by omega
    have hRead := readPruneRecord_ok hLedger.noFile (hLedger.file o paths hRecord)
      (hLedger.owner o hMem).1 (hLedger.owner o hMem).2 (hLedger.fits o paths hRecord).bounded hLeft
    rw [Text.map_marshalled_of_isText (hLedger.fits o paths hRecord).text] at hRead
    -- No path of the record is entered under another owner.
    have hFresh : ∀ p ∈ paths, loaded.owners.lookup p = none := by
      intro p hP
      rw [Option.eq_none_iff_forall_ne_some]
      intro o' hTaken
      obtain ⟨hDone, paths', hRecord', hP'⟩ := (hLoaded.owners p o').mp hTaken
      obtain rfl := hLedger.single o o' paths paths' p hRecord hRecord' hP hP'
      exact hNotDone hDone
    obtain ⟨owners, hEnter⟩ : ∃ entered, enterPaths validatePrunePath
          (fun p prev => .duplicateOwnership p prev o) o loaded.owners paths = .ok entered :=
      enterPaths_ok (hLedger.fits o paths hRecord).valid (hLedger.fits o paths hRecord).nodup hFresh
    have hNext := hLoaded.insert hRecord (enterPaths_spec hEnter).2 hFresh
      (loaded.total + sizeAt t (pruneRecordPath sha o))
    obtain ⟨loaded', hRest, hPart, hTotal⟩ :=
      ih _ _ hNodup.2
        (fun o' hO' => ⟨(hOwners o' (List.mem_cons_of_mem o hO')).1, by
          rintro (hDone | rfl)
          · exact (hOwners o' (List.mem_cons_of_mem o hO')).2 hDone
          · exact hNodup.1 hO'⟩)
        hNext (by dsimp only; omega)
    refine ⟨loaded', ?_, ?_, ?_⟩
    · rw [List.map_cons, loadEntries, Fallible.bind_eq_ok]
      refine ⟨_, hRead, ?_⟩
      rw [Fallible.bind_eq_ok]
      exact ⟨owners, hEnter, hRest⟩
    · simpa [or_assoc] using hPart
    · rw [hTotal]
      simp [recordBytes, Nat.add_assoc]

theorem mem_childNames_of_ledger (hLedger : Ledger sha known t recs) {name : Text} :
    name ∈ t.childNames pruneMetadataDir ↔ ∃ o ∈ recs.keys, pruneRecordName sha o = name := by
  rw [FileTree.mem_childNames]
  constructor
  · rintro ⟨p, hP, hChild⟩
    have hIn : inMetadata p = true := by
      by_contra hNot
      unfold inMetadata at hNot
      rw [FileTree.childName, if_neg hNot] at hChild
      cases hChild
    obtain ⟨o, hO, rfl⟩ := hLedger.recorded p hP hIn
    refine ⟨o, hO, ?_⟩
    rw [pruneRecordPath, FileTree.childName_append (noSlash_recordName o)] at hChild
    simpa using hChild
  · rintro ⟨o, hO, rfl⟩
    obtain ⟨paths, hRecord⟩ := mem_keys_iff_exists.mp hO
    refine ⟨pruneRecordPath sha o, ?_, FileTree.childName_append (noSlash_recordName o)⟩
    rw [FileTree.mem_keys_iff_lookup, hLedger.file o paths hRecord]
    rfl

theorem exists_map_eq {α β : Type} {f : α → β} {P : α → Prop} {values : List β}
    (hValues : ∀ b ∈ values, ∃ a, P a ∧ f a = b) :
    ∃ args : List α, args.map f = values ∧ ∀ a ∈ args, P a := by
  induction values with
  | nil => exact ⟨[], rfl, by simp⟩
  | cons b values ih =>
    rw [List.forall_mem_cons] at hValues
    obtain ⟨a, hA, hEq⟩ := hValues.1
    obtain ⟨args, hMap, hArgs⟩ := ih hValues.2
    exact ⟨a :: args, by rw [List.map_cons, hEq, hMap], List.forall_mem_cons.mpr ⟨hA, hArgs⟩⟩

theorem childNames_of_ledger (hSha : CollisionFree sha known) (hLedger : Ledger sha known t recs) :
    ∃ os : List Text, os.Perm recs.keys ∧
      os.map (pruneRecordName sha) = t.childNames pruneMetadataDir := by
  obtain ⟨os, hMap, hOs⟩ := exists_map_eq (f := pruneRecordName sha) (P := fun o => o ∈ recs.keys)
    (fun name hName => (mem_childNames_of_ledger hLedger).mp hName)
  refine ⟨os, ?_, hMap⟩
  have hNodup : os.Nodup := by
    apply List.Nodup.of_map (pruneRecordName sha)
    rw [hMap]
    exact FileTree.nodup_childNames t pruneMetadataDir
  rw [List.perm_ext_iff_of_nodup hNodup recs.keys_nodup]
  intro o
  refine ⟨hOs o, fun hO => ?_⟩
  have hName : pruneRecordName sha o ∈ os.map (pruneRecordName sha) := by
    rw [hMap]
    exact (mem_childNames_of_ledger hLedger).mpr ⟨o, hO, rfl⟩
  obtain ⟨o', hO', hEq⟩ := List.mem_map.mp hName
  have hHex : sha.hex o' = sha.hex o := by simpa [pruneRecordName] using hEq
  obtain rfl := hSha o' o (hLedger.isKnown o' (hOs o' hO')) (hLedger.isKnown o hO) hHex
  exact hO'

theorem loadPruneRecords_of_ledger
    (hSha : CollisionFree sha known) (hLedger : Ledger sha known t recs) :
    ∃ loaded, loadPruneRecords sha t = .ok loaded ∧ LoadedPart recs (fun _ => True) loaded ∧
      loaded.total = recordBytes sha t recs.keys := by
  obtain ⟨os, hPerm, hMap⟩ := childNames_of_ledger hSha hLedger
  have hBytes : recordBytes sha t os = recordBytes sha t recs.keys := (hPerm.map _).sum_eq
  obtain ⟨loaded, hLoad, hPart, hTotal⟩ :=
    loadEntries_of_ledger hLedger os (fun _ => False) ⟨∅, ∅, 0⟩
      (hPerm.nodup_iff.mpr recs.keys_nodup) (fun o hO => ⟨hPerm.mem_iff.mp hO, id⟩)
      ⟨by simp, by simp⟩ (by rw [hBytes, Nat.zero_add]; exact hLedger.bytes)
  have hAll : LoadedPart recs (fun _ => True) loaded := by
    have hMem : ∀ o paths, recs.lookup o = some paths → o ∈ os := by
      intro o paths hRecord
      exact hPerm.mem_iff.mpr (mem_keys_iff_exists.mpr ⟨paths, hRecord⟩)
    constructor
    · intro p o
      rw [hPart.owners p o]
      constructor
      · rintro ⟨-, hRest⟩
        exact ⟨trivial, hRest⟩
      · rintro ⟨-, paths, hRecord, hP⟩
        exact ⟨.inr (hMem o paths hRecord), paths, hRecord, hP⟩
    · intro o record
      rw [hPart.records o record]
      constructor
      · rintro ⟨-, hRest⟩
        exact ⟨trivial, hRest⟩
      · rintro ⟨-, paths, hRecord, hEq⟩
        exact ⟨.inr (hMem o paths hRecord), paths, hRecord, hEq⟩
  refine ⟨loaded, ?_, hAll, by rw [hTotal, hBytes]; simp⟩
  rw [hMap] at hLoad
  have hCount : ¬ maxPruneOwners < (t.childNames pruneMetadataDir).length := by
    rw [← hMap, List.length_map, hPerm.length_eq, Nat.not_lt]
    exact hLedger.count
  -- Without the directory there is no record to read.
  have hEmpty : t.stat pruneMetadataDir = none → t.childNames pruneMetadataDir = [] := by
    intro hStat
    have hDir : t.isDir pruneMetadataDir = false := by
      simpa [FileTree.stat, hLedger.noFile] using hStat
    rw [List.eq_nil_iff_forall_not_mem]
    intro name hName
    obtain ⟨p, hP, hChild⟩ := FileTree.mem_childNames.mp hName
    have hUnder : FileTree.under pruneMetadataDir p = false := by
      simpa using List.any_eq_false.mp hDir p hP
    simp [FileTree.childName, hUnder] at hChild
  unfold loadPruneRecords
  cases hStat : t.stat pruneMetadataDir with
  | none =>
    rw [hEmpty hStat] at hLoad
    exact hLoad
  | some kind =>
    cases kind with
    | file => simp [FileTree.stat, hLedger.noFile] at hStat
    | dir =>
      simp only [if_neg hCount]
      exact hLoad

end Load

----
-- Changing A Ledger
----

section Change

variable {sha : Digest} {known : Text → Prop} {t t' : FileTree} {recs : RecordBook}

theorem recordBytes_congr {os : List Text}
    (hSame : ∀ o ∈ os, t'.lookup (pruneRecordPath sha o) = t.lookup (pruneRecordPath sha o)) :
    recordBytes sha t' os = recordBytes sha t os := by
  unfold recordBytes
  congr 1
  apply List.map_congr_left
  intro o hO
  rw [sizeAt, hSame o hO, sizeAt]

theorem Ledger.path_ne_recordPath (hLedger : Ledger sha known t recs) {o p : Text}
    {paths : List Text} (hRecord : recs.lookup o = some paths) (hP : p ∈ paths) (o' : Text) :
    p ≠ pruneRecordPath sha o' := by
  rintro rfl
  exact not_atMetadata_of_valid ((hLedger.fits o paths hRecord).valid _ hP)
    (atMetadata_recordPath sha o')

theorem Ledger.of_metadata_eq (hLedger : Ledger sha known t recs)
    (hSame : ∀ p, AtMetadata p → t'.lookup p = t.lookup p) : Ledger sha known t' recs where
  file o paths hRecord := by
    rw [hSame _ (atMetadata_recordPath sha o)]
    exact hLedger.file o paths hRecord
  recorded p hP hIn := by
    rw [FileTree.mem_keys_iff_lookup, hSame p (.inl hIn), ← FileTree.mem_keys_iff_lookup] at hP
    exact hLedger.recorded p hP hIn
  noFile := by
    rw [hSame _ (.inr rfl)]
    exact hLedger.noFile
  isKnown := hLedger.isKnown
  owner := hLedger.owner
  fits := hLedger.fits
  single := hLedger.single
  count := hLedger.count
  bytes := by
    rw [recordBytes_congr fun o _ => hSame _ (atMetadata_recordPath sha o)]
    exact hLedger.bytes

theorem Ledger.remove (hLedger : Ledger sha known t recs) {removed : List Text}
    (hLookup : ∀ p, t'.lookup p = if p ∈ removed then none else t.lookup p) :
    ∃ recs', Ledger sha known t' recs' := by
  let rest : RecordBook := recs.filterKeys fun o => decide (pruneRecordPath sha o ∉ removed)
  have hKept : ∀ o paths, rest.lookup o = some paths →
      recs.lookup o = some paths ∧ pruneRecordPath sha o ∉ removed := by
    intro o paths hRecord
    rw [GoMap.lookup_filterKeys] at hRecord
    split_ifs at hRecord with hKeep
    exact ⟨hRecord, by simpa using hKeep⟩
  have hMem : ∀ o ∈ rest.keys, o ∈ recs.keys ∧ pruneRecordPath sha o ∉ removed := by
    intro o hO
    obtain ⟨paths, hRecord⟩ := mem_keys_iff_exists.mp hO
    obtain ⟨hOld, hNot⟩ := hKept o paths hRecord
    exact ⟨mem_keys_iff_exists.mpr ⟨paths, hOld⟩, hNot⟩
  have hSublist : rest.keys.Sublist recs.keys := List.Sublist.map Sigma.fst List.filter_sublist
  exact ⟨rest,
    { file := fun o paths hRecord => by
        obtain ⟨hOld, hNot⟩ := hKept o paths hRecord
        rw [hLookup, if_neg hNot]
        exact hLedger.file o paths hOld
      recorded := fun p hP hIn => by
        rw [FileTree.mem_keys_iff_lookup, hLookup] at hP
        split_ifs at hP with hRemoved
        · cases hP
        obtain ⟨o, hO, rfl⟩ := hLedger.recorded p (FileTree.mem_keys_iff_lookup.mpr hP) hIn
        refine ⟨o, ?_, rfl⟩
        obtain ⟨paths, hRecord⟩ := mem_keys_iff_exists.mp hO
        rw [mem_keys_iff_exists]
        refine ⟨paths, ?_⟩
        rw [GoMap.lookup_filterKeys, if_pos (by simpa using hRemoved)]
        exact hRecord
      noFile := by rw [hLookup, hLedger.noFile, ite_self]
      isKnown := fun o hO => hLedger.isKnown o (hMem o hO).1
      owner := fun o hO => hLedger.owner o (hMem o hO).1
      fits := fun o paths hRecord => hLedger.fits o paths (hKept o paths hRecord).1
      single := fun o o' paths paths' p hRecord hRecord' =>
        hLedger.single o o' paths paths' p (hKept o paths hRecord).1 (hKept o' paths' hRecord').1
      count := hSublist.length_le.trans hLedger.count
      bytes := by
        rw [recordBytes_congr (t := t) fun o hO => by rw [hLookup, if_neg (hMem o hO).2]]
        refine le_trans ?_ hLedger.bytes
        exact (hSublist.map _).sum_le_sum (fun _ _ => Nat.zero_le _) }⟩

variable {o : Text}

variable (hSha : CollisionFree sha known) (hLedger : Ledger sha known t recs) (hKnown : known o)

include hSha hLedger hKnown

theorem Ledger.sizeAt_of_notMem (hNot : o ∉ recs.keys) : sizeAt t (pruneRecordPath sha o) = 0 := by
  unfold sizeAt
  cases hFile : t.lookup (pruneRecordPath sha o) with
  | none => rfl
  | some data =>
    obtain ⟨o', hO', hEq⟩ := hLedger.recorded _
      (FileTree.mem_keys_iff_lookup.mpr (by rw [hFile]; rfl)) (inMetadata_recordPath o)
    obtain rfl := recordPath_injective hSha hKnown (hLedger.isKnown o' hO') hEq
    exact absurd hO' hNot

theorem Ledger.recordBytes_erase :
    sizeAt t (pruneRecordPath sha o) + recordBytes sha t (recs.erase o).keys =
      recordBytes sha t recs.keys := by
  rw [AList.keys_erase]
  by_cases hMem : o ∈ recs.keys
  · exact List.sum_map_erase (fun o => sizeAt t (pruneRecordPath sha o)) hMem
  · rw [hLedger.sizeAt_of_notMem hSha hKnown hMem,
      @List.erase_of_not_mem Text instBEqOfDecidableEq _ _ _ hMem, Nat.zero_add]

variable {paths : List Text} (hLookup : ∀ p, AtMetadata p → t'.lookup p =
    if p = pruneRecordPath sha o then some (encodeRecord ⟨1, o, paths⟩) else t.lookup p)

include hLookup

/- The record of another owner is another file. -/
theorem Ledger.lookup_other {o' : Text} (hO' : o' ∈ recs.keys) (hNe : o' ≠ o) :
    t'.lookup (pruneRecordPath sha o') = t.lookup (pruneRecordPath sha o') := by
  rw [hLookup _ (atMetadata_recordPath sha o'), if_neg]
  exact fun hEq => hNe (recordPath_injective hSha (hLedger.isKnown o' hO') hKnown hEq)

theorem Ledger.recordBytes_insert : recordBytes sha t' (recs.insert o paths).keys =
      recordBytes sha t recs.keys - sizeAt t (pruneRecordPath sha o) +
        Text.byteLen (encodeRecord ⟨1, o, paths⟩) := by
  have hErase := hLedger.recordBytes_erase hSha hKnown
  have hRest : recordBytes sha t' (recs.erase o).keys =
      recordBytes sha t (recs.erase o).keys := by
    apply recordBytes_congr
    intro o' hO'
    rw [← AList.mem_keys, AList.mem_erase, AList.mem_keys] at hO'
    exact hLedger.lookup_other hSha hKnown hLookup hO'.2 hO'.1
  have hNew : sizeAt t' (pruneRecordPath sha o) = Text.byteLen (encodeRecord ⟨1, o, paths⟩) := by
    rw [sizeAt, hLookup _ (atMetadata_recordPath sha o), if_pos rfl]
  have hSum : recordBytes sha t' (recs.insert o paths).keys =
      sizeAt t' (pruneRecordPath sha o) + recordBytes sha t' (recs.erase o).keys := by
    rw [AList.keys_insert, ← AList.keys_erase, recordBytes, List.map_cons, List.sum_cons,
      recordBytes]
  rw [hSum, hRest, hNew]
  omega

theorem Ledger.insert (hOwner : o ≠ [] ∧ Text.byteLen o ≤ maxOwnerBytes) (hFits : Recordable paths)
    (hDisjoint : ∀ o' paths' p, o' ≠ o → recs.lookup o' = some paths' → p ∈ paths' → p ∉ paths)
    (hCount : (recs.insert o paths).keys.length ≤ maxPruneOwners)
    (hBytes : recordBytes sha t' (recs.insert o paths).keys ≤ maxPruneMetadataBytes) :
    Ledger sha known t' (recs.insert o paths) := by
  have hCases : ∀ o' paths',
      (recs.insert o paths).lookup o' = some paths' →
      (o' = o ∧ paths' = paths) ∨ (o' ≠ o ∧ recs.lookup o' = some paths') := by
    intro o' paths' hRecord
    rw [GoMap.lookup_insert_ite] at hRecord
    split_ifs at hRecord with hEq
    · exact .inl ⟨hEq, by simpa using hRecord.symm⟩
    · exact .inr ⟨hEq, hRecord⟩
  have hKeys : ∀ o' ∈ (recs.insert o paths).keys, o' = o ∨ o' ∈ recs.keys := by
    intro o' hO'
    obtain ⟨paths', hRecord⟩ := mem_keys_iff_exists.mp hO'
    rcases hCases o' paths' hRecord with ⟨hEq, -⟩ | ⟨-, hOld⟩
    · exact .inl hEq
    · exact .inr (mem_keys_iff_exists.mpr ⟨paths', hOld⟩)
  have hOther : ∀ o' ∈ recs.keys, o' ≠ o →
      t'.lookup (pruneRecordPath sha o') = t.lookup (pruneRecordPath sha o') :=
    fun _ => hLedger.lookup_other hSha hKnown hLookup
  have hOwn : t'.lookup (pruneRecordPath sha o) = some (encodeRecord ⟨1, o, paths⟩) := by
    rw [hLookup _ (atMetadata_recordPath sha o), if_pos rfl]
  exact
    { file := fun o' paths' hRecord => by
        rcases hCases o' paths' hRecord with ⟨rfl, rfl⟩ | ⟨hNe, hOld⟩
        · exact hOwn
        · rw [hOther o' (mem_keys_iff_exists.mpr ⟨paths', hOld⟩) hNe]
          exact hLedger.file o' paths' hOld
      recorded := fun p hP hIn => by
        rw [FileTree.mem_keys_iff_lookup, hLookup p (.inl hIn)] at hP
        split_ifs at hP with hEq
        · exact ⟨o, by simp, hEq⟩
        · obtain ⟨o', hO', rfl⟩ := hLedger.recorded p (FileTree.mem_keys_iff_lookup.mpr hP) hIn
          refine ⟨o', ?_, rfl⟩
          rw [← AList.mem_keys, AList.mem_insert, AList.mem_keys]
          exact .inr hO'
      noFile := by
        rw [hLookup _ (.inr rfl), if_neg (Ne.symm (recordPath_ne_metadataDir o))]
        exact hLedger.noFile
      isKnown := fun o' hO' => by
        rcases hKeys o' hO' with rfl | hOld
        · exact hKnown
        · exact hLedger.isKnown o' hOld
      owner := fun o' hO' => by
        rcases hKeys o' hO' with rfl | hOld
        · exact hOwner
        · exact hLedger.owner o' hOld
      fits := fun o' paths' hRecord => by
        rcases hCases o' paths' hRecord with ⟨rfl, rfl⟩ | ⟨-, hOld⟩
        · exact hFits
        · exact hLedger.fits o' paths' hOld
      single := fun o₁ o₂ paths₁ paths₂ p h₁ h₂ hP₁ hP₂ => by
        rcases hCases o₁ paths₁ h₁ with ⟨rfl, rfl⟩ | ⟨hNe₁, hOld₁⟩
        · rcases hCases o₂ paths₂ h₂ with ⟨rfl, rfl⟩ | ⟨hNe₂, hOld₂⟩
          · rfl
          · exact absurd hP₁ (hDisjoint o₂ paths₂ p hNe₂ hOld₂ hP₂)
        · rcases hCases o₂ paths₂ h₂ with ⟨rfl, rfl⟩ | ⟨hNe₂, hOld₂⟩
          · exact absurd hP₂ (hDisjoint o₁ paths₁ p hNe₁ hOld₁ hP₁)
          · exact hLedger.single o₁ o₂ paths₁ paths₂ p hOld₁ hOld₂ hP₁ hP₂
      count := hCount
      bytes := hBytes }

end Change

----
-- Exports Keep The Ledger
----

section Export

variable {sha : Digest} {known : Text → Prop} {t : FileTree} {recs : RecordBook}
variable {loaded : PruneRecords}

/- Nothing that was touched is on record for the owner. -/
def Spares (sha : Digest) (change : TreeChange) (o : Text) (paths : List Text) : Prop :=
  ∀ p ∈ change.written ++ change.removed, p ≠ pruneRecordPath sha o ∧ p ∉ paths

variable {o : Text}

variable (hLoaded : LoadedPart recs (fun _ => True) loaded)

include hLoaded in
theorem LoadedPart.pathsOf {p : Text} (hP : p ∈ loaded.pathsOf o) :
    ∃ paths, recs.lookup o = some paths ∧ p ∈ paths := by
  unfold PruneRecords.pathsOf at hP
  cases hRecord : loaded.records.lookup o with
  | none => simp [hRecord] at hP
  | some record =>
    rw [hRecord] at hP
    obtain ⟨-, paths, hPaths, rfl⟩ := (hLoaded.records o record).mp hRecord
    exact ⟨paths, hPaths, hP⟩

omit hLoaded in
/- What is on record in a tree with a ledger. -/
theorem mem_recordedPaths (hSha : CollisionFree sha known) (hLedger : Ledger sha known t recs)
    {p : Text} : p ∈ recordedPaths sha t o ↔ ∃ paths, recs.lookup o = some paths ∧ p ∈ paths := by
  obtain ⟨loaded, hLoad, hLoaded, -⟩ := loadPruneRecords_of_ledger hSha hLedger
  unfold recordedPaths
  rw [hLoad]
  refine ⟨hLoaded.pathsOf, ?_⟩
  rintro ⟨paths, hRecord, hP⟩
  dsimp only
  unfold PruneRecords.pathsOf
  rw [(hLoaded.records o _).mpr ⟨trivial, paths, hRecord, rfl⟩]
  exact hP

include hLoaded in
theorem LoadedPart.mem_keys : o ∈ loaded.records.keys ↔ o ∈ recs.keys := by
  rw [mem_keys_iff_exists, ← AList.mem_keys, ← AList.lookup_isSome, Option.isSome_iff_exists]
  constructor
  · rintro ⟨record, hRecord⟩
    obtain ⟨-, paths, hPaths, -⟩ := (hLoaded.records o record).mp hRecord
    exact ⟨paths, hPaths⟩
  · rintro ⟨paths, hPaths⟩
    exact ⟨_, (hLoaded.records o _).mpr ⟨trivial, paths, hPaths, rfl⟩⟩

include hLoaded in
theorem LoadedPart.length_insert (o : Text) (record : PruneRecord) (paths : List Text) :
    (loaded.records.insert o record).keys.length = (recs.insert o paths).keys.length := by
  apply List.Perm.length_eq
  rw [List.perm_ext_iff_of_nodup (AList.keys_nodup _) (AList.keys_nodup _)]
  intro o'
  rw [← AList.mem_keys, ← AList.mem_keys, AList.mem_insert,
    AList.mem_insert, AList.mem_keys, AList.mem_keys, hLoaded.mem_keys]

include hLoaded in
/- A record-advancing export has no path of another record. -/
theorem LoadedPart.disjoint_of_claims {owner : Text} {paths : List Text}
    (hClaims : checkSingleClaims (loaded.records.insert owner ⟨1, owner, paths⟩) owner = .ok ())
    {p : Text} {paths' : List Text} (hNe : o ≠ owner) (hRecord : recs.lookup o = some paths')
    (hP : p ∈ paths') : p ∉ paths := by
  have hOther : pathsIn (loaded.records.insert owner ⟨1, owner, paths⟩) o = paths' := by
    rw [pathsIn, AList.lookup_insert_ne hNe,
      (hLoaded.records o _).mpr ⟨trivial, paths', hRecord, rfl⟩]
  have hOwn : pathsIn (loaded.records.insert owner ⟨1, owner, paths⟩) owner = paths := by
    rw [pathsIn, AList.lookup_insert]
  have hDisjoint := checkSingleClaims_disjoint hClaims hNe (p := p) (by rw [hOther]; exact hP)
  rwa [hOwn] at hDisjoint

variable {cfg : PruneConfig} {files : List FileEntry} {change : TreeChange}

variable (hSha : CollisionFree sha known) (hLedger : Ledger sha known t recs)
  (hKnown : known cfg.pruneOwner) (hOwner : cfg.pruneOwner ≠ [])
  (hText : ∀ p ∈ pruneKeepSet cfg (files.map FileEntry.path), Text.IsText p)
  (hOk : writeExportFiles sha t cfg files = .ok change)

include hSha hLedger hKnown hOwner hText hOk

/-
  An export leads from book to book; only a prune changes the record of its owner, to what it keeps.
-/
theorem book_writeExportFiles : ∃ recs', Ledger sha known change.tree recs' ∧
      (∀ o, o ≠ cfg.pruneOwner ∨ cfg.prune = false → recs'.lookup o = recs.lookup o) ∧
      (cfg.prune = true → ∃ paths, recs'.lookup cfg.pruneOwner = some paths ∧
          ∀ p, p ∈ paths ↔ p ∈ pruneKeepSet cfg (files.map FileEntry.path)) := by
  rcases writeExportFiles_owned hOwner hOk with ⟨hShort, loaded, current, hLoad, hPaths, hExport⟩
  rcases loadPruneRecords_of_ledger hSha hLedger with ⟨loaded', hLoad', hLoaded, hTotal⟩
  obtain rfl : loaded = loaded' := Except.ok.inj (hLoad.symm.trans hLoad')
  have hMetadata := fun p (hAt : AtMetadata p) => hExport.metadata hLoad hPaths hAt
  cases hPrune : cfg.prune with
  | false =>
    refine ⟨recs, hLedger.of_metadata_eq fun p hAt => ?_, fun _ _ => rfl, fun hOn => nomatch hOn⟩
    rw [hMetadata p hAt, if_neg (by simp [hPrune])]
  | true =>
    obtain ⟨plan, hPlan⟩ :
        ∃ plan, planOwnedPrune sha t cfg.pruneOwner loaded current = .ok plan := by
      cases hExport with
      | suppressed hOff =>
        rw [hPrune] at hOff
        cases hOff
      | advanced _ hPlan => exact ⟨_, hPlan⟩
    obtain ⟨hClaims, hCount, hBytes, -⟩ := planOwnedPrune_ok hPlan
    have hLookup : ∀ p, AtMetadata p → change.tree.lookup p =
        if p = pruneRecordPath sha cfg.pruneOwner then
          some (encodeRecord ⟨1, cfg.pruneOwner, Text.sort current⟩)
        else t.lookup p := by
      intro p hAt
      rw [hMetadata p hAt, hPrune]
      exact if_congr (and_iff_right rfl) rfl rfl
    refine ⟨recs.insert cfg.pruneOwner (Text.sort current),
      hLedger.insert hSha hKnown hLookup ⟨hOwner, hShort⟩ ⟨?_, ?_, ?_, ?_⟩ ?_ ?_ ?_, ?_, ?_⟩
    · rw [Text.length_sort]
      exact hPaths.length_le
    · exact Text.nodup_sort.mpr hPaths.nodup
    · exact fun p hP => hPaths.valid p (Text.mem_sort.mp hP)
    · exact fun p hP => hText p ((hPaths.mem_iff p).mp (Text.mem_sort.mp hP))
    · intro o' paths' p hNe hRecord hP
      exact hLoaded.disjoint_of_claims hClaims hNe hRecord hP
    · rw [← hLoaded.length_insert cfg.pruneOwner]
      exact hCount
    · rw [hLedger.recordBytes_insert hSha hKnown hLookup, ← hTotal]
      exact hBytes
    · rintro o (hNe | hOff)
      · exact AList.lookup_insert_ne hNe
      · cases hOff
    · intro _
      refine ⟨_, AList.lookup_insert _, fun p => ?_⟩
      exact Text.mem_sort.trans (hPaths.mem_iff p)

theorem ledger_writeExportFiles : (∃ recs', Ledger sha known change.tree recs') ∧
      ∀ o paths, o ≠ cfg.pruneOwner → recs.lookup o = some paths → Spares sha change o paths := by
  rcases book_writeExportFiles hSha hLedger hKnown hOwner hText hOk with ⟨recs', hNext, -⟩
  refine ⟨⟨recs', hNext⟩, ?_⟩
  rcases writeExportFiles_owned hOwner hOk with ⟨hShort, loaded, current, hLoad, hPaths, hExport⟩
  rcases loadPruneRecords_of_ledger hSha hLedger with ⟨loaded', hLoad', hLoaded, -⟩
  have hSame : loaded' = loaded := Except.ok.inj (hLoad'.symm.trans hLoad)
  subst hSame
  have hWritten : ∀ p ∈ files.map FileEntry.path, ∀ o, p ≠ pruneRecordPath sha o := by
    rintro p hP o rfl
    exact not_atMetadata_of_valid (hPaths.valid _ (hPaths.written_mem _ hP))
      (atMetadata_recordPath sha o)
  intro o paths hNe hRecord p hP
  cases hExport with
  | suppressed hPrune hFill =>
    rw [List.append_nil] at hP
    refine ⟨hWritten p hP o, fun hMem => hNe ?_⟩
    exact hPaths.unclaimed hPrune p (hPaths.written_mem p hP)
      o ((hLoaded.owners p o).mpr ⟨trivial, paths, hRecord, hMem⟩)
  | advanced _ hPlan _ _ _ =>
    rcases planOwnedPrune_ok hPlan with ⟨hClaims, -, -, hEq⟩
    subst hEq
    simp only [List.append_assoc, List.mem_append, List.mem_singleton] at hP
    rcases hP with hFile | hOwn | hRemoved
    · refine ⟨hWritten p hFile o, fun hMem => ?_⟩
      exact hLoaded.disjoint_of_claims hClaims hNe hRecord
        hMem (Text.mem_sort.mpr (hPaths.written_mem p hFile))
    · subst hOwn
      constructor
      · intro hEq
        have hKnownO := hLedger.isKnown o (mem_keys_iff_exists.mpr ⟨paths, hRecord⟩)
        exact hNe (recordPath_injective hSha hKnownO hKnown hEq.symm)
      · exact fun hMem => hLedger.path_ne_recordPath hRecord hMem _ rfl
    · rw [Text.mem_sort, List.mem_filter] at hRemoved
      rcases hLoaded.pathsOf hRemoved.1 with ⟨paths', hRecord', hMem'⟩
      refine ⟨hLedger.path_ne_recordPath hRecord' hMem' o, fun hMem => hNe ?_⟩
      exact hLedger.single o _ paths paths' p hRecord hRecord' hMem hMem'

end Export

----
-- Releases Keep The Ledger
----

section Release

variable {sha : Digest} {known : Text → Prop} {t t' : FileTree} {recs : RecordBook}
variable {loaded : PruneRecords}

/- The tree lost the files and nothing else. -/
def LostExactly (t t' : FileTree) (removed : List Text) : Prop :=
  ∀ p, t'.lookup p = if p ∈ removed then none else t.lookup p

theorem LostExactly.trans {t'' : FileTree} {removed removed' : List Text}
    (hFirst : LostExactly t t' removed) (hSecond : LostExactly t' t'' removed') :
    LostExactly t t'' (removed ++ removed') := by
  intro p
  rw [hSecond p, hFirst p]
  by_cases hP : p ∈ removed <;> by_cases hP' : p ∈ removed' <;>
    simp [hP, hP']

variable {guarded : GoMap Text Text}

theorem mem_matchedFiles {m : KeyMatcher} {p : Text} :
    p ∈ matchedFiles t guarded m ↔ p ∈ t.keys ∧ guarded.lookup p = none ∧ m.lists p = true := by
  rw [matchedFiles, List.mem_filter, mem_filesIn,
    KeyMatcher.lists, Bool.and_eq_true, Bool.and_eq_true,
    Option.isNone_iff_eq_none, decide_eq_true_eq]
  tauto

variable {found : List Text}

theorem removeCandidates_ok {matchers : List KeyMatcher}
    (hOk : removeCandidates guarded t matchers = .ok (t', found)) : LostExactly t t' found ∧
      ∀ p, p ∈ found ↔ p ∈ t.keys ∧ guarded.lookup p = none ∧ ∃ m ∈ matchers, m.lists p = true := by
  induction matchers generalizing t found with
  | nil =>
    obtain ⟨rfl, rfl⟩ : t = t' ∧ [] = found := by simpa [removeCandidates] using hOk
    exact ⟨fun p => by simp, by simp⟩
  | cons m matchers ih =>
    rw [removeCandidates] at hOk
    split_ifs at hOk
    simp only [Fallible.bind_eq_ok, fsResult_eq_ok] at hOk
    obtain ⟨u, hRemove, ⟨u', rest⟩, hRest, hEq⟩ := hOk
    obtain ⟨rfl, rfl⟩ : u' = t' ∧ matchedFiles t guarded m ++ rest = found := by
      simpa [pure, Except.pure] using hEq
    obtain ⟨hLost, hMem⟩ := ih hRest
    have hFirst : LostExactly t u (matchedFiles t guarded m) := FileTree.lookup_removeFiles hRemove
    refine ⟨hFirst.trans hLost, fun p => ?_⟩
    have hMatched := @mem_matchedFiles t guarded m p
    rw [List.mem_append, hMem p, List.exists_mem_cons_iff]
    by_cases hIn : p ∈ matchedFiles t guarded m
    · obtain ⟨hKey, hGuard, hLists⟩ := hMatched.mp hIn
      simp [hIn, hKey, hGuard, hLists]
    · -- What this matcher leaves is still there.
      rw [FileTree.mem_keys_iff_lookup, hFirst p, if_neg hIn, ← FileTree.mem_keys_iff_lookup]
      rw [hMatched] at hIn
      tauto

theorem removeExact_ok {paths : List Text} (hOk : removeExact t paths = .ok (t', found)) :
    LostExactly t t' found ∧ ∀ p ∈ found, p ∈ paths := by
  induction paths generalizing t found with
  | nil =>
    obtain ⟨rfl, rfl⟩ : t = t' ∧ [] = found := by simpa [removeExact] using hOk
    exact ⟨fun p => by simp, by simp⟩
  | cons p paths ih =>
    rw [removeExact, Fallible.bind_eq_ok] at hOk
    obtain ⟨exists_, -, hOk⟩ := hOk
    cases exists_ with
    | false =>
      obtain ⟨hLost, hMem⟩ := ih hOk
      exact ⟨hLost, fun q hQ => List.mem_cons_of_mem p (hMem q hQ)⟩
    | true =>
      simp only [if_true, Fallible.bind_eq_ok, fsResult_eq_ok] at hOk
      obtain ⟨u, hRemove, ⟨u', rest⟩, hRest, hEq⟩ := hOk
      obtain ⟨rfl, rfl⟩ : u' = t' ∧ p :: rest = found := by simpa [pure, Except.pure] using hEq
      obtain ⟨hLost, hMem⟩ := ih hRest
      have hFirst : LostExactly t u [p] := by
        intro q
        simpa using FileTree.lookup_removeFile hRemove q
      refine ⟨hFirst.trans hLost, ?_⟩
      intro q hQ
      rcases List.mem_cons.mp hQ with rfl | hRestMem
      · exact List.mem_cons_self
      · exact List.mem_cons_of_mem p (hMem q hRestMem)

theorem existingFiles_subset {paths : List Text} (hOk : existingFiles t paths = .ok found) :
    ∀ p ∈ found, p ∈ paths := by
  induction paths generalizing found with
  | nil =>
    obtain rfl : [] = found := by simpa [existingFiles] using hOk
    simp
  | cons p paths ih =>
    simp only [existingFiles, Fallible.bind_eq_ok] at hOk
    obtain ⟨exists_, -, rest, hRest, hEq⟩ := hOk
    obtain rfl := Except.ok.inj hEq
    intro q hQ
    cases exists_ with
    | false => exact List.mem_cons_of_mem p (ih hRest q hQ)
    | true =>
      rcases List.mem_cons.mp hQ with rfl | hMem
      · exact List.mem_cons_self
      · exact List.mem_cons_of_mem p (ih hRest q hMem)

variable {owner : Text}

theorem ownRecord_ok {recordPath : Text} (hOk : ownRecord sha t owner = .ok (some recordPath)) :
    recordPath = pruneRecordPath sha owner := by
  simp only [ownRecord] at hOk
  split_ifs at hOk
  rw [Fallible.bind_eq_ok] at hOk
  obtain ⟨exists_, -, hOk⟩ := hOk
  cases exists_ with
  | false => cases hOk
  | true =>
    rw [if_pos rfl, Fallible.bind_eq_ok] at hOk
    obtain ⟨⟨record, _⟩, -, hOk⟩ := hOk
    split_ifs at hOk
    exact (Option.some.inj (Except.ok.inj hOk)).symm

variable {keepFiles : Bool} {candidates : List Text}

theorem planRelease_ok {plan : ReleasePlan}
    (hOk : planRelease sha t owner keepFiles candidates = .ok plan) :
    (∀ p ∈ plan.exact, p = pruneRecordPath sha owner ∨
      keepFiles = false ∧ p ∈ recordedPaths sha t owner) ∧
    ((keepFiles = true ∧ plan.candidates = []) ∨ (keepFiles = false ∧ plan.candidates = candidates ∧
        ∃ loaded, loadPruneRecords sha t = .ok loaded ∧
          plan.guarded = foreignClaims loaded.owners owner)) := by
  cases keepFiles with
  | true =>
    rw [planRelease, if_pos rfl] at hOk
    split_ifs at hOk
    rw [Fallible.bind_eq_ok] at hOk
    obtain ⟨recordPath, hRecord, hPlan⟩ := hOk
    obtain rfl := Except.ok.inj hPlan
    refine ⟨?_, .inl ⟨rfl, rfl⟩⟩
    intro p hP
    rw [Option.mem_toList] at hP
    subst hP
    exact .inl (ownRecord_ok hRecord)
  | false =>
    rw [planRelease, if_neg (by simp), Fallible.bind_eq_ok] at hOk
    obtain ⟨loaded, hLoad, hOk⟩ := hOk
    split_ifs at hOk with hOwner
    · obtain rfl := Except.ok.inj hOk
      exact ⟨by simp, .inr ⟨rfl, rfl, loaded, hLoad, rfl⟩⟩
    · cases hRecord : loaded.records.lookup owner with
      | none =>
        rw [hRecord] at hOk
        obtain rfl := Except.ok.inj hOk
        exact ⟨by simp, .inr ⟨rfl, rfl, loaded, hLoad, rfl⟩⟩
      | some record =>
        simp only [hRecord, Fallible.bind_eq_ok] at hOk
        obtain ⟨own, hOwn, hPlan⟩ := hOk
        obtain rfl := Except.ok.inj hPlan
        refine ⟨?_, .inr ⟨rfl, rfl, loaded, hLoad, rfl⟩⟩
        intro p hP
        rcases List.mem_append.mp hP with hFile | hSelf
        · refine .inr ⟨rfl, ?_⟩
          rw [recordedPaths, hLoad]
          simp only [PruneRecords.pathsOf, hRecord]
          exact existingFiles_subset hOwn p hFile
        · exact .inl (List.mem_singleton.mp hSelf)

variable {change : TreeChange}

variable (hOk : releaseExport sha t owner keepFiles candidates = .ok change)

include hOk in
theorem releaseExport_ok :
    ∃ plan matched exact_, planRelease sha t owner keepFiles candidates = .ok plan ∧
      change.written = [] ∧ change.removed = matched ++ exact_ ∧
      LostExactly t change.tree (matched ++ exact_) ∧
      (∀ p, p ∈ matched ↔ p ∈ t.keys ∧ plan.guarded.lookup p = none ∧
        ∃ m ∈ plan.candidates.flatMap cleanupMatchers, m.lists p = true) ∧
      ∀ p ∈ exact_, p ∈ plan.exact := by
  simp only [releaseExport, Fallible.bind_eq_ok] at hOk
  obtain ⟨plan, hPlan, ⟨u, matched⟩, hMatched, ⟨u', exact_⟩, hExact, hChange⟩ := hOk
  obtain rfl := Except.ok.inj hChange
  obtain ⟨hLostMatched, hMem⟩ := removeCandidates_ok hMatched
  obtain ⟨hLostExact, hExactMem⟩ := removeExact_ok hExact
  exact ⟨plan, matched, exact_, hPlan, rfl, rfl, hLostMatched.trans hLostExact, hMem, hExactMem⟩

include hOk in
theorem releaseExport_lost :
    LostExactly t change.tree change.removed ∧ ∀ p ∈ change.removed, p = pruneRecordPath sha owner ∨
        keepFiles = false ∧ (p ∈ recordedPaths sha t owner ∨
            ∃ m ∈ candidates.flatMap cleanupMatchers, m.lists p = true) := by
  obtain ⟨plan, matched, exact_, hPlan, -, hRemoved, hLost, hMem, hExactMem⟩ := releaseExport_ok hOk
  obtain ⟨hExactPaths, hGuard⟩ := planRelease_ok hPlan
  rw [hRemoved]
  refine ⟨hLost, fun p hP => ?_⟩
  rcases List.mem_append.mp hP with hFound | hOwn
  · obtain ⟨-, -, hLists⟩ := (hMem p).mp hFound
    rcases hGuard with ⟨-, hNone⟩ | ⟨hKeep, hAll, -⟩
    · simp [hNone] at hLists
    · rw [hAll] at hLists
      exact .inr ⟨hKeep, .inr hLists⟩
  · exact (hExactPaths p (hExactMem p hOwn)).imp_right (And.imp_right .inl)

theorem lookup_foreignClaims {owners : GoMap Text Text} {p : Text} (hOwner : owner ≠ []) :
    (foreignClaims owners owner).lookup p =
      if owners.lookup p = some owner then none
      else owners.lookup p := by
  rw [foreignClaims, GoMap.lookup_filterKeys]
  by_cases hOwn : owners.lookup p = some owner <;>
    simp [hOwn, hOwner]

/-
  A release removes no file another record lists, and another owner's record exactly when a
  candidate matches it.
-/
theorem ledger_releaseExport (hSha : CollisionFree sha known) (hLedger : Ledger sha known t recs)
    (hKnown : known owner) (hOwner : owner ≠ [])
    (hOk : releaseExport sha t owner keepFiles candidates = .ok change) :
    (∃ recs', Ledger sha known change.tree recs') ∧
      ∀ o paths, o ≠ owner → recs.lookup o = some paths → (Spares sha change o paths ↔
          ¬ (keepFiles = false ∧
            ∃ m ∈ candidates.flatMap cleanupMatchers, m.lists (pruneRecordPath sha o) = true)) := by
  obtain ⟨loaded, hLoad, hLoaded, -⟩ := loadPruneRecords_of_ledger hSha hLedger
  obtain ⟨plan, matched, exact_, hPlan, hWritten, hRemoved, hLost, hMem, hExactMem⟩ :=
    releaseExport_ok hOk
  refine ⟨hLedger.remove hLost, ?_⟩
  obtain ⟨hExactPaths, hGuard⟩ := planRelease_ok hPlan
  intro o paths hNe hRecord
  have hKnownO := hLedger.isKnown o (mem_keys_iff_exists.mpr ⟨paths, hRecord⟩)
  -- What is removed without matching is the owner's own.
  have hOwn : ∀ p ∈ exact_, p ≠ pruneRecordPath sha o ∧ p ∉ paths := by
    intro p hP
    rcases hExactPaths p (hExactMem p hP) with rfl | ⟨-, hRecorded⟩
    · exact ⟨fun hEq => hNe (recordPath_injective hSha hKnownO hKnown hEq.symm),
        fun hMemP => hLedger.path_ne_recordPath hRecord hMemP owner rfl⟩
    · rw [recordedPaths, hLoad] at hRecorded
      obtain ⟨paths', hRecord', hP'⟩ := hLoaded.pathsOf hRecorded
      exact ⟨hLedger.path_ne_recordPath hRecord' hP' o, fun hMemP =>
        hNe (hLedger.single o owner paths paths' p hRecord hRecord' hMemP hP')⟩
  have hIff : Spares sha change o paths ↔ ∀ p ∈ matched, p ≠ pruneRecordPath sha o ∧ p ∉ paths := by
    unfold Spares
    simp only [hWritten, hRemoved, List.nil_append, List.mem_append]
    exact ⟨fun h p hP => h p (.inl hP), fun h p hP => hP.elim (h p) (hOwn p)⟩
  rw [hIff]
  rcases hGuard with ⟨rfl, hNone⟩ | ⟨rfl, hCandidates, loaded', hLoad', hGuard⟩
  · have hEmpty : ∀ p, p ∉ matched := by
      intro p hP
      rw [hMem p, hNone] at hP
      simp at hP
    simp [hEmpty]
  · obtain rfl := Except.ok.inj (hLoad.symm.trans hLoad')
    rw [hCandidates] at hMem
    -- Recorded paths are guarded; the record file is not.
    have hGuarded : ∀ p ∈ paths, plan.guarded.lookup p ≠ none := by
      intro p hP
      have hClaim := (hLoaded.owners p o).mpr ⟨trivial, paths, hRecord, hP⟩
      rw [hGuard, lookup_foreignClaims hOwner, hClaim, if_neg (by simpa using hNe)]
      simp
    have hUnguarded : plan.guarded.lookup (pruneRecordPath sha o) = none := by
      have hNoClaim : loaded.owners.lookup (pruneRecordPath sha o) = none := by
        rw [Option.eq_none_iff_forall_ne_some]
        intro o' hClaim
        obtain ⟨-, paths', hRecord', hP'⟩ := (hLoaded.owners _ o').mp hClaim
        exact hLedger.path_ne_recordPath hRecord' hP' o rfl
      rw [hGuard, lookup_foreignClaims hOwner, hNoClaim]
      simp
    have hFile : pruneRecordPath sha o ∈ t.keys := by
      rw [FileTree.mem_keys_iff_lookup, hLedger.file o paths hRecord]
      rfl
    constructor
    · rintro hSpared ⟨-, hLists⟩
      exact (hSpared _ ((hMem _).mpr ⟨hFile, hUnguarded, hLists⟩)).1 rfl
    · intro hNoMatch p hP
      obtain ⟨-, hFree, hLists⟩ := (hMem p).mp hP
      refine ⟨?_, fun hMemP => hGuarded p hMemP hFree⟩
      rintro rfl
      exact hNoMatch ⟨rfl, hLists⟩

end Release

----
-- Whole Runs
----

/- The records list each path at most once. -/
def PruneRecords.SingleClaims (loaded : PruneRecords) : Prop :=
  (∀ o record, loaded.records.lookup o = some record → record.paths.Nodup) ∧
  ∀ o o' record record' p, loaded.records.lookup o = some record →
    loaded.records.lookup o' = some record' → p ∈ record.paths → p ∈ record'.paths → o = o'

/- No record and no recorded file of another is touched. -/
def LeavesOthersAlone (sha : Digest) (loaded : PruneRecords) (owner : Text)
    (change : TreeChange) : Prop :=
  ∀ o record, o ≠ owner → loaded.records.lookup o = some record → Spares sha change o record.paths

/- A candidate to remove matches another's record file. -/
def OwnershipOp.MatchesForeignRecord (sha : Digest) (loaded : PruneRecords) : OwnershipOp → Prop
  | writeExport _ _ => False
  | release owner keepFiles candidates =>
    keepFiles = false ∧ ∃ o record, o ≠ owner ∧ loaded.records.lookup o = some record ∧
        ∃ m ∈ candidates.flatMap cleanupMatchers, m.lists (pruneRecordPath sha o) = true

section Runs

variable {sha : Digest} {known : Text → Prop} {t : FileTree} {recs : RecordBook}

/- The records of a tree with a ledger load and are single. -/
theorem singleClaims_of_ledger
    (hSha : CollisionFree sha known) (hLedger : Ledger sha known t recs) :
    ∃ loaded, loadPruneRecords sha t = .ok loaded ∧ loaded.SingleClaims ∧
      LoadedPart recs (fun _ => True) loaded := by
  obtain ⟨loaded, hLoad, hLoaded, -⟩ := loadPruneRecords_of_ledger hSha hLedger
  refine ⟨loaded, hLoad, ⟨?_, ?_⟩, hLoaded⟩
  · intro o record hRecord
    obtain ⟨-, paths, hPaths, rfl⟩ := (hLoaded.records o record).mp hRecord
    exact (hLedger.fits o paths hPaths).nodup
  · intro o o' record record' p hRecord hRecord' hP hP'
    obtain ⟨-, paths, hPaths, rfl⟩ := (hLoaded.records o record).mp hRecord
    obtain ⟨-, paths', hPaths', rfl⟩ := (hLoaded.records o' record').mp hRecord'
    exact hLedger.single o o' paths paths' p hPaths hPaths' hP hP'

/- One accepted operation, against the loaded records. -/
theorem ledger_run (hSha : CollisionFree sha known)
    (hLedger : Ledger sha known t recs) {loaded : PruneRecords}
    (hLoaded : LoadedPart recs (fun _ => True) loaded) {op : OwnershipOp} {change : TreeChange}
    (hKnown : known op.owner) (hOwner : op.owner ≠ []) (hText : op.HasText)
    (hOk : op.run sha t = .ok change) : (∃ recs', Ledger sha known change.tree recs') ∧
      (LeavesOthersAlone sha loaded op.owner change ↔ ¬ op.MatchesForeignRecord sha loaded) := by
  -- Loaded records and the book speak of the same paths.
  have hBook : ∀ P : Text → List Text → Prop,
      (∀ o record, o ≠ op.owner → loaded.records.lookup o = some record → P o record.paths) ↔
      ∀ o paths, o ≠ op.owner → recs.lookup o = some paths → P o paths := by
    intro P
    constructor
    · intro h o paths hNe hPaths
      exact h o ⟨1, o, paths⟩ hNe ((hLoaded.records o _).mpr ⟨trivial, paths, hPaths, rfl⟩)
    · intro h o record hNe hRecord
      obtain ⟨-, paths, hPaths, rfl⟩ := (hLoaded.records o record).mp hRecord
      exact h o paths hNe hPaths
  unfold LeavesOthersAlone
  rw [hBook (Spares sha change)]
  cases op with
  | writeExport cfg files =>
    obtain ⟨hNext, hSpares⟩ := ledger_writeExportFiles hSha hLedger hKnown hOwner hText hOk
    exact ⟨hNext, iff_of_true hSpares id⟩
  | release owner keepFiles candidates =>
    obtain ⟨hNext, hSpares⟩ := ledger_releaseExport hSha hLedger hKnown hOwner hOk
    refine ⟨hNext, ?_⟩
    constructor
    · rintro hAll ⟨hKeep, o, record, hNe, hRecord, hLists⟩
      obtain ⟨-, paths, hPaths, -⟩ := (hLoaded.records o record).mp hRecord
      exact (hSpares o paths hNe hPaths).mp (hAll o paths hNe hPaths) ⟨hKeep, hLists⟩
    · intro hNoMatch o paths hNe hPaths
      rw [hSpares o paths hNe hPaths]
      rintro ⟨hKeep, hLists⟩
      exact hNoMatch ⟨hKeep, o, ⟨1, o, paths⟩, hNe,
        (hLoaded.records o _).mpr ⟨trivial, paths, hPaths, rfl⟩, hLists⟩

theorem ledger_step (hSha : CollisionFree sha known) {op : OwnershipOp}
    (hKnown : known op.owner) (hOwner : op.owner ≠ []) (hText : op.HasText)
    (hLedger : ∃ recs, Ledger sha known t recs) :
    ∃ recs, Ledger sha known (op.step sha t) recs := by
  obtain ⟨recs, hLedger⟩ := hLedger
  unfold OwnershipOp.step
  cases hRun : op.run sha t with
  | error e => exact ⟨recs, hLedger⟩
  | ok change =>
    obtain ⟨loaded, -, -, hLoaded⟩ := singleClaims_of_ledger hSha hLedger
    exact (ledger_run hSha hLedger hLoaded hKnown hOwner hText hRun).1

end Runs

/-
  From the empty tree, whatever the owners do with paths of text: the records of every reached tree
  load and list each path once, and an accepted operation leaves the others alone exactly when it is
  not a release with a candidate that matches the record file of another owner.
-/
theorem ownership_along_run (sha : Digest) (ops : List OwnershipOp)
    (hOwners : ∀ op ∈ ops, op.owner ≠ []) (hText : ∀ op ∈ ops, op.HasText)
    (hSha : CollisionFree sha (fun o => ∃ op ∈ ops, op.owner = o)) :
    Run.Along (fun t op => OwnershipOp.step sha t op) (fun t op => ∃ loaded,
        loadPruneRecords sha t = .ok loaded ∧ loaded.SingleClaims ∧
        ∀ change, op.run sha t = .ok change →
          (LeavesOthersAlone sha loaded op.owner change ↔ ¬ op.MatchesForeignRecord sha loaded))
      ∅ ops ∧
    ∃ loaded,
      loadPruneRecords sha (Run.exec (fun t op => OwnershipOp.step sha t op) ∅ ops) = .ok loaded ∧
      loaded.SingleClaims := by
  have hStart : ∃ recs, Ledger sha (fun o => ∃ op ∈ ops, op.owner = o) ∅ recs :=
    ⟨∅, ledger_empty sha _⟩
  have hMembers : Run.Along (fun t op => OwnershipOp.step sha t op) (fun _ op => op ∈ ops) ∅ ops :=
    Run.along_of_forall (fun op hOp _ => hOp)
  have hStep : ∀ t op, (∃ recs, Ledger sha (fun o => ∃ op ∈ ops, op.owner = o) t recs) → op ∈ ops →
      ∃ recs, Ledger sha (fun o => ∃ op ∈ ops, op.owner = o) (op.step sha t) recs :=
    fun t op hLedger hOp => ledger_step hSha ⟨op, hOp, rfl⟩ (hOwners op hOp) (hText op hOp) hLedger
  constructor
  · refine Run.Along.imp ?_ (Run.along_invariant hStep hStart hMembers)
    rintro t op ⟨⟨recs, hLedger⟩, hOp⟩
    obtain ⟨loaded, hLoad, hSingle, hLoaded⟩ := singleClaims_of_ledger hSha hLedger
    refine ⟨loaded, hLoad, hSingle, fun change hRun => ?_⟩
    exact (ledger_run hSha hLedger hLoaded ⟨op, hOp, rfl⟩ (hOwners op hOp) (hText op hOp) hRun).2
  · obtain ⟨recs, hLedger⟩ := Run.exec_invariant hStep hStart hMembers
    obtain ⟨loaded, hLoad, hSingle, -⟩ := singleClaims_of_ledger hSha hLedger
    exact ⟨loaded, hLoad, hSingle⟩

----
-- A Run Of Two Owners
----

def inventoryA : Text := "a"

def inventoryB : Text := "b"

def exportOne (owner path : Text) : OwnershipOp :=
  .writeExport { pruneOwner := owner, prune := true, pruneKeepPaths := [], pruneClaimPaths := [] }
    [{ path := path, data := "row" }]

def treeOfB : FileTree := (exportOne inventoryB "inventory/b.json").step paddedDigest ∅

/- A release whose candidate is the record of the other. -/
def releaseAtRecordOfB : OwnershipOp :=
  .release inventoryA false [pruneRecordPath paddedDigest inventoryB]

/- The release of one inventory removes another's record. -/
theorem release_removes_foreign_record : treeOfB.lookup (pruneRecordPath paddedDigest inventoryB) =
        some (encodeRecord ⟨1, inventoryB, ["inventory/b.json"]⟩) ∧
      (match releaseAtRecordOfB.run paddedDigest treeOfB with
        | .ok change => change.removed
        | .error _ => []) = [pruneRecordPath paddedDigest inventoryB] := by
  decide +kernel

/- Two owners; the second also asks for the first's path. -/
def orderlyOps : List OwnershipOp :=
  [exportOne inventoryB "inventory/b.json", exportOne inventoryA "inventory/a.json",
    exportOne inventoryA "inventory/b.json", .release inventoryA false ["inventory/a.json"]]

theorem orderly_run_keeps_records : (∀ op ∈ orderlyOps, op.owner ≠ []) ∧
    ∃ loaded,
      loadPruneRecords paddedDigest
        (Run.exec (fun t op => OwnershipOp.step paddedDigest t op) ∅ orderlyOps) = .ok loaded ∧
      loaded.SingleClaims := by
  have hOwners : ∀ op ∈ orderlyOps, op.owner ≠ [] := by decide
  have hDigests : ∀ op ∈ orderlyOps, ∀ op' ∈ orderlyOps,
      paddedDigest.hex op.owner = paddedDigest.hex op'.owner →
        op.owner = op'.owner := by decide +kernel
  have hText : ∀ op ∈ orderlyOps, op.HasText := by
    simp only [orderlyOps, exportOne, List.forall_mem_cons, OwnershipOp.HasText, pruneKeepSet,
      if_true, List.map_cons, List.map_nil, List.not_mem_nil, false_imp_iff, implies_true]
    decide
  refine ⟨hOwners, (ownership_along_run paddedDigest orderlyOps hOwners hText ?_).2⟩
  rintro o o' ⟨op, hOp, rfl⟩ ⟨op', hOp', rfl⟩ hHex
  exact hDigests op hOp op' hOp' hHex

end Git
end Sink
end Kollect
