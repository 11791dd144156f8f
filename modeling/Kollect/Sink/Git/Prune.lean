import Kollect.Foundation.JsonText
import Kollect.Foundation.FileTree
import Mathlib.Algebra.BigOperators.Group.List.Basic

/-
  Ownership records of the Git sink (`sink/git/prune_owned.go` and `prune_tree.go`).

  An inventory that exports with an owner leaves a record of its files under `.kollect-prune` in the
  exported tree, named by the hash of the owner. An export reads all records, refuses paths that
  another owner's record lists, and, when it prunes, removes the files its own record lists and the
  export no longer has.

  Trees hold regular files only, so the checks for symbolic links are left out.
-/

namespace Kollect
namespace Sink
namespace Git

----
-- Configuration And Errors
----

def pruneMetadataDir : Text := ".kollect-prune"

def maxPruneMetadataBytes : Nat := 16 * 2 ^ 20

def maxPruneOwners : Nat := 1024

def maxPrunePaths : Nat := 100000

def maxOwnerBytes : Nat := 4096

/- The part of the sink configuration the records depend on. -/
structure PruneConfig where
  pruneOwner : Text
  prune : Bool
  pruneKeepPaths : List Text
  pruneClaimPaths : List Text

structure FileEntry where
  path : Text
  data : Text
deriving DecidableEq, Repr

/-
  Why an operation on the records is refused. The errors of the first group are terminal, those of
  the second are also inventory-scoped, and the last come from the file system.
-/
inductive PruneError where
  | invalidPath (p : Text)
  | reservedPath (p : Text)
  | parentNotDirectory (component : Text)
  | notRegularFile (component : Text)
  | metadataTooLarge
  | undecodable (name : Text)
  | trailingData (name : Text)
  | invalidRecord (name : Text)
  | metadataNotDirectory
  | tooManyOwners
  | duplicateOwnership (p prev owner : Text)
  | claimedTwice (p prev owner : Text)
  | releaseWithoutOwner
  | releaseOwnerTooLong
  | recordNamesOther (recordPath owner : Text)
  | ownerTooLong
  | tooManyPaths
  | missingFromKeepSet (p : Text)
  | foreignClaim (p owner : Text)
  | openFailed (p : Text)
  | writeFailed
  | removeFailed
  | readDirFailed (dir : Text)
deriving DecidableEq, Repr

/- The classes of `internal/errors` an error may carry. -/
inductive ErrorClass where
  | terminal
  | inventoryScoped
  | unclassified
deriving DecidableEq, Repr

def PruneError.errorClass : PruneError → ErrorClass
  | ownerTooLong => .inventoryScoped
  | tooManyPaths => .inventoryScoped
  | missingFromKeepSet _ => .inventoryScoped
  | foreignClaim _ _ => .inventoryScoped
  | openFailed _ => .unclassified
  | writeFailed => .unclassified
  | removeFailed => .unclassified
  | readDirFailed _ => .unclassified
  | _ => .terminal

----
-- Paths
----

def pruneRecordName (sha : Digest) (owner : Text) : Text := sha.hex owner ++ (".json" : Text)

def pruneRecordPath (sha : Digest) (owner : Text) : Text :=
  pruneMetadataDir ++ '/' :: pruneRecordName sha owner

/- A segment that no exported path may have. -/
def reservedSegment (part : Text) : Bool :=
  part = ['.'] || part = ['.', '.'] || Text.equalFold part ".git" ||
    Text.equalFold part pruneMetadataDir

/- A recorded path is canonical, never cleaned into shape. -/
def validatePrunePath (p : Text) : Except PruneError Unit :=
  if 4096 < Text.byteLen p ∨ p = [] ∨ p ≠ Text.trimSpace p ∨ Path.isAbs p ∨ Path.clean p ≠ p ∨
      p.any (fun c => c ∈ ['\\', '\x00', '\r', '\n']) then
    .error (.invalidPath p)
  else if (Path.segments p).any reservedSegment then .error (.reservedPath p)
  else .ok ()

/- Every existing parent is a directory, the leaf a file. -/
def checkComponents (t : FileTree) : List Text → Except PruneError Unit
  | [] => .ok ()
  | [leaf] =>
    match t.stat leaf with
    | some .dir => .error (.notRegularFile leaf)
    | _ => .ok ()
  | parent :: rest =>
    match t.stat parent with
    | none => .ok ()
    | some .file => .error (.parentNotDirectory parent)
    | some .dir => checkComponents t rest

def checkPruneFile (t : FileTree) (p : Text) : Except PruneError Unit :=
  checkComponents t (Path.components p)

----
-- Records
----

structure PruneRecord where
  version : Int
  owner : Text
  paths : List Text
deriving DecidableEq, Repr

/- The members of the JSON form of a record. -/
inductive RecordField where
  | version
  | owner
  | paths
deriving DecidableEq, Repr

def recordKey : RecordField → Text
  | .version => "version"
  | .owner => "owner"
  | .paths => "paths"

/-
  `json.Marshal` of a record, with the final newline. Bytes of a path that are no text are replaced.
  An owner is the JSON of some names, which is text.
-/
def encodeRecord (record : PruneRecord) : Text :=
  Json.encode (.obj [(recordKey .version, .int record.version),
      (recordKey .owner, .str record.owner),
      (recordKey .paths, .arr (record.paths.map fun p => .str (Text.marshalled p)))]) ++
    ['\n']

/-
  Decoding into a list of strings: a null element keeps what stands at its place. The decoder
  replaces what is no text, too.
-/
def decodeStrings : List Text → List Json → Option (List Text)
  | _, [] => some []
  | old, x :: xs => do
      let text ←
        match x with
        | .str s => some (Text.marshalled s)
        | .null => some (old.headD [])
        | _ => none
      let texts ← decodeStrings old.tail xs
      pure (text :: texts)

/- A member name, exact or folded; others are refused. -/
def recordField (key : Text) : Option RecordField :=
  [RecordField.version, .owner, .paths].find? (fun field => Text.equalFold key (recordKey field))

/- One member of the object into the record; null is skipped. -/
def decodeMember (record : PruneRecord) (field : RecordField) (value : Json) : Option PruneRecord :=
  match field, value with
  | .version, .int n =>
    if -(2 ^ 63) ≤ n ∧ n < 2 ^ 63 then some { record with version := n }
    else none
  | .owner, .str s => some { record with owner := s }
  | .paths, .arr xs => do
      let paths ← decodeStrings record.paths xs
      pure { record with paths := paths }
  | .paths, .null => some { record with paths := [] }
  | _, .null => some record
  | _, _ => none

/- Decoding with unknown members refused. -/
def decodeRecord : Json → Option PruneRecord
  | .obj fields =>
    fields.foldlM
      (fun record member => do
        let field ← recordField member.1
        decodeMember record field member.2) { version := 0, owner := [], paths := [] }
  | .null => some { version := 0, owner := [], paths := [] }
  | _ => none

variable (sha : Digest) (t : FileTree)

/- A record of the tree and its size in bytes. -/
def readPruneRecord (name : Text) (remaining : Nat) : Except PruneError (PruneRecord × Nat) := do
  let p := pruneMetadataDir ++ '/' :: name
  checkPruneFile t p
  match t.lookup p with
  | none => .error (.openFailed p)
  | some data =>
    if remaining < Text.byteLen data then .error .metadataTooLarge
    else
      match Json.scan data with
      | none => .error (.undecodable name)
      | some (value, rest) =>
        match decodeRecord value with
        | none => .error (.undecodable name)
        | some record =>
          if Json.skipSpace rest ≠ [] then .error (.trailingData name)
          else if record.version ≠ 1 ∨ record.owner = [] ∨
              maxOwnerBytes < Text.byteLen record.owner ∨
              pruneRecordPath sha record.owner ≠ p ∨
              maxPrunePaths < record.paths.length then
            .error (.invalidRecord name)
          else .ok (record, Text.byteLen data)

structure PruneRecords where
  owners : GoMap Text Text
  records : GoMap Text PruneRecord
  total : Nat

/-
  Enter checked paths under an owner. A path that is entered already, whoever it belongs to, is an
  error.
-/
def enterPaths (check : Text → Except PruneError Unit)
    (taken : Text → Text → PruneError) (owner : Text) (owners : GoMap Text Text) :
    List Text → Except PruneError (GoMap Text Text)
  | [] => .ok owners
  | p :: paths => do
      check p
      match owners.lookup p with
      | some prev => .error (taken p prev)
      | none => enterPaths check taken owner (owners.insert p owner) paths

/- The paths of one record as it is loaded. -/
def claimPaths (owner : Text) (owners : GoMap Text Text) (paths : List Text) :
    Except PruneError (GoMap Text Text) :=
  enterPaths validatePrunePath (fun p prev => .duplicateOwnership p prev owner) owner owners paths

/- Read the records one after another. -/
def loadEntries (sha : Digest) (t : FileTree) (loaded : PruneRecords) :
    List Text → Except PruneError PruneRecords
  | [] => .ok loaded
  | name :: names => do
      let (record, size) ← readPruneRecord sha t name (maxPruneMetadataBytes - loaded.total)
      let owners ← claimPaths record.owner loaded.owners record.paths
      loadEntries sha t
        { owners := owners
          records := loaded.records.insert record.owner record
          total := loaded.total + size }
        names

def loadPruneRecords : Except PruneError PruneRecords :=
  match t.stat pruneMetadataDir with
  | none => .ok ⟨∅, ∅, 0⟩
  | some .file => .error .metadataNotDirectory
  | some .dir =>
    let names := t.childNames pruneMetadataDir
    if maxPruneOwners < names.length then .error .tooManyOwners
    else loadEntries sha t ⟨∅, ∅, 0⟩ names

----
-- Preparing An Owned Export
----

variable (cfg : PruneConfig)

/- The multipart union when supplied, else what is written. -/
def pruneKeepSet (written : List Text) : List Text :=
  if cfg.pruneKeepPaths = [] then written
  else cfg.pruneKeepPaths

variable (owners : GoMap Text Text) (p : Text)

/- Another owner's record lists the path. -/
def checkForeignClaim : Except PruneError Unit :=
  match owners.lookup p with
  | none => .ok ()
  | some owner =>
    if owner = cfg.pruneOwner then .ok ()
    else .error (.foreignClaim p owner)

def requireKept (keep : List Text) (p : Text) : Except PruneError Unit :=
  if p ∈ keep then .ok () else .error (.missingFromKeepSet p)

/-
  A part that does not advance the record is checked against the records as they are; the others
  against the records they would leave behind (`checkSingleClaims`).
-/
def checkUnadvanced : Except PruneError Unit :=
  if cfg.prune then .ok () else checkForeignClaim cfg owners p

def checkKeptPath (t : FileTree) (cfg : PruneConfig) (owners : GoMap Text Text)
    (p : Text) : Except PruneError Unit := do
  validatePrunePath p
  checkUnadvanced cfg owners p
  checkPruneFile t p

def checkClaimPath : Except PruneError Unit := do
  validatePrunePath p
  checkForeignClaim cfg owners p

/- The set of paths the owner will have. -/
def validateOwnedPrunePaths (t : FileTree) (cfg : PruneConfig) (written : List Text)
    (owners : GoMap Text Text) : Except PruneError (List Text) := do
  let keep := pruneKeepSet cfg written
  if maxPrunePaths < keep.length then .error .tooManyPaths
  else do
    let current := keep.dedup
    Fallible.checkAll (requireKept current) written
    Fallible.checkAll (checkKeptPath t cfg owners) current
    Fallible.checkAll (checkClaimPath cfg owners) cfg.pruneClaimPaths
    pure current

/- The error for a path two records would list. -/
def doubleClaim (self owner p prev : Text) : PruneError :=
  if prev ≠ owner ∧ owner = self then .foreignClaim p prev
  else if prev ≠ owner ∧ prev = self then .foreignClaim p owner
  else .claimedTwice p prev owner

def checkClaimsOf (self : Text) (records : GoMap Text PruneRecord) (claimedBy : GoMap Text Text) :
    List Text → Except PruneError Unit
  | [] => .ok ()
  | owner :: owners => do
      let paths :=
        match records.lookup owner with
        | some record => record.paths
        | none => []
      let claimedBy ← enterPaths (fun _ => .ok ()) (doubleClaim self owner) owner claimedBy paths
      checkClaimsOf self records claimedBy owners

/- The records of the next commit list each path once. -/
def checkSingleClaims (records : GoMap Text PruneRecord) (self : Text) : Except PruneError Unit :=
  checkClaimsOf self records ∅ (Text.sort records.keys)

structure OwnedPrunePlan where
  recordPath : Text
  data : Text
  remove : List Text
deriving DecidableEq, Repr

/- The owner's recorded paths; none without a record. -/
def PruneRecords.pathsOf (loaded : PruneRecords) (owner : Text) : List Text :=
  match loaded.records.lookup owner with
  | some record => record.paths
  | none => []

def sizeAt (t : FileTree) (p : Text) : Nat :=
  match t.lookup p with
  | some data => Text.byteLen data
  | none => 0

/-
  The record the export would leave, refused when the tree could not be loaded with it. The old
  record's stored bytes are taken off the total, which counts it.
-/
def planOwnedPrune (owner : Text)
    (loaded : PruneRecords) (current : List Text) : Except PruneError OwnedPrunePlan := do
  let old := loaded.pathsOf owner
  Fallible.checkAll (checkPruneFile t) old
  let record : PruneRecord := { version := 1, owner := owner, paths := Text.sort current }
  let records := loaded.records.insert owner record
  checkSingleClaims records owner
  if maxPruneOwners < records.keys.length then .error .tooManyOwners
  else
    let recordPath := pruneRecordPath sha owner
    let data := encodeRecord record
    if maxPruneMetadataBytes < loaded.total - sizeAt t recordPath + Text.byteLen data then
      .error .metadataTooLarge
    else
      .ok
        { recordPath := recordPath
          data := data
          remove := Text.sort (old.filter (fun p => p ∉ current)) }

/-
  Validate the whole operation before anything is written. No owner and a suppressed prune have
  nothing to apply.
-/
def prepareOwnedPrune (written : List Text) : Except PruneError (Option OwnedPrunePlan) :=
  if cfg.pruneOwner = [] then .ok none
  else if maxOwnerBytes < Text.byteLen cfg.pruneOwner then .error .ownerTooLong
  else do
    let loaded ← loadPruneRecords sha t
    let current ← validateOwnedPrunePaths t cfg written loaded.owners
    if cfg.prune then do
      let plan ← planOwnedPrune sha t cfg.pruneOwner loaded current
      pure (some plan)
    else pure none

----
-- Writing An Export
----

/- A changed tree, with the paths that were touched. -/
structure TreeChange where
  tree : FileTree
  written : List Text
  removed : List Text

def fsResult (e : PruneError) : Option FileTree → Except PruneError FileTree
  | some t => .ok t
  | none => .error e

/- Remove the stale files, then write the record. -/
def applyPlan (t : FileTree) : Option OwnedPrunePlan → Except PruneError TreeChange
  | none => .ok ⟨t, [], []⟩
  | some plan => do
      let t ← fsResult .removeFailed (t.removeFiles plan.remove)
      let t ← fsResult .writeFailed (t.writeFile plan.recordPath plan.data)
      pure ⟨t, [plan.recordPath], plan.remove⟩

/- The directories of the paths, the root left out. -/
def managedDirs (paths : List Text) : List Text :=
  ((paths.map FileTree.parentDir).filter (fun dir => dir ≠ ['.'])).dedup

/- Stale files next to the kept ones that no record lists. -/
def orphans (t : FileTree) (owners : GoMap Text Text) (keep : List Text) : List Text :=
  (managedDirs keep).flatMap fun dir =>
    (t.filesIn dir).filter fun p => decide (p ∉ keep) && (owners.lookup p).isNone

/- The directory-scoped prune of an export without an owner. -/
def pruneOrphans (written : List Text) : Except PruneError TreeChange :=
  if cfg.prune = false ∨ cfg.pruneOwner ≠ [] then .ok ⟨t, [], []⟩
  else do
    let keep := pruneKeepSet cfg written
    let loaded ← loadPruneRecords sha t
    match (managedDirs keep).find? t.blocked with
    | some dir => .error (.readDirFailed dir)
    | none => do
        let stale := orphans t loaded.owners keep
        let t ← fsResult .removeFailed (t.removeFiles stale)
        pure ⟨t, [], stale⟩

/- `writeBillyExportFiles`: the worktree of one export. -/
def writeExportFiles (files : List FileEntry) : Except PruneError TreeChange := do
  let paths := files.map FileEntry.path
  let plan ← prepareOwnedPrune sha t cfg paths
  let filled ← fsResult .writeFailed (t.writeFiles (files.map fun f => (f.path, f.data)))
  let owned ← applyPlan filled plan
  let pruned ← pruneOrphans sha owned.tree cfg paths
  pure ⟨pruned.tree, paths ++ owned.written, owned.removed ++ pruned.removed⟩

----
-- Entering Paths
----

section EnterPaths

variable {check : Text → Except PruneError Unit} {taken : Text → Text → PruneError} {owner : Text}
variable {owners entered : GoMap Text Text} {paths : List Text}

theorem enterPaths_spec (hEnter : enterPaths check taken owner owners paths = .ok entered) :
    ((∀ p ∈ paths, check p = .ok ()) ∧ paths.Nodup ∧ ∀ p ∈ paths, owners.lookup p = none) ∧
      ∀ q, entered.lookup q = if q ∈ paths then some owner else owners.lookup q := by
  induction paths generalizing owners with
  | nil =>
    obtain rfl : owners = entered := by simpa [enterPaths] using hEnter
    simp
  | cons p paths ih =>
    rw [enterPaths, Fallible.bind_eq_ok] at hEnter
    obtain ⟨_, hCheck, hEnter⟩ := hEnter
    cases hLookup : owners.lookup p with
    | some prev => simp [hLookup] at hEnter
    | none =>
      simp only [hLookup] at hEnter
      obtain ⟨⟨hChecks, hNodup, hFresh⟩, hEntered⟩ := ih hEnter
      have hNot : p ∉ paths := by
        intro hMem
        simpa using hFresh p hMem
      refine ⟨⟨List.forall_mem_cons.mpr ⟨hCheck, hChecks⟩, List.nodup_cons.mpr ⟨hNot, hNodup⟩,
        List.forall_mem_cons.mpr ⟨hLookup, ?_⟩⟩, ?_⟩
      · intro q hQ
        have hNe : q ≠ p := fun h => hNot (h ▸ hQ)
        have hOld := hFresh q hQ
        rwa [AList.lookup_insert_ne hNe] at hOld
      · intro q
        rw [hEntered, GoMap.lookup_insert_ite]
        by_cases hMem : q ∈ paths
        · simp [hMem]
        · simp [hMem]

theorem enterPaths_ok (hChecks : ∀ p ∈ paths, check p = .ok ()) (hNodup : paths.Nodup)
    (hFresh : ∀ p ∈ paths, owners.lookup p = none) :
    ∃ entered, enterPaths check taken owner owners paths = .ok entered := by
  induction paths generalizing owners with
  | nil => exact ⟨owners, rfl⟩
  | cons p paths ih =>
    rw [List.forall_mem_cons] at hChecks hFresh
    rw [List.nodup_cons] at hNodup
    have hRest : ∀ q ∈ paths, (owners.insert p owner).lookup q = none := by
      intro q hQ
      have hNe : q ≠ p := fun h => hNodup.1 (h ▸ hQ)
      rw [AList.lookup_insert_ne hNe]
      exact hFresh.2 q hQ
    obtain ⟨entered, hEnter⟩ := ih hChecks.2 hNodup.2 hRest
    refine ⟨entered, ?_⟩
    rw [enterPaths, Fallible.bind_eq_ok]
    exact ⟨(), hChecks.1, by simpa only [hFresh.1] using hEnter⟩

end EnterPaths

----
-- Records Round Trip
----

theorem recordField_recordKey (field : RecordField) :
    recordField (recordKey field) = some field := by
  cases field <;> decide

theorem decodeStrings_map_str (old texts : List Text) :
    decodeStrings old (texts.map fun text => .str (Text.marshalled text)) =
      some (texts.map Text.marshalled) := by
  induction texts generalizing old with
  | nil => rfl
  | cons text texts ih =>
    simp [decodeStrings, ih, Text.marshalled_of_isText (Text.isText_marshalled text)]

theorem floatFree_strings (texts : List Text) :
    Json.FloatFreeElements (texts.map fun text => .str (Text.marshalled text)) := by
  induction texts with
  | nil => trivial
  | cons text texts ih => exact ⟨trivial, ih⟩

theorem decode_encodeRecord (owner : Text) (paths : List Text) :
    ∃ value, Json.scan (encodeRecord { version := 1, owner := owner, paths := paths }) =
        some (value, ['\n']) ∧ decodeRecord value =
        some { version := 1, owner := owner, paths := paths.map Text.marshalled } := by
  refine ⟨_, Json.scan_encode ?_ ?_, ?_⟩
  · exact ⟨trivial, trivial, floatFree_strings paths, trivial⟩
  · rintro c hC
    obtain rfl : '\n' = c := by simpa using hC
    decide
  · simp only [decodeRecord, List.foldlM_cons, List.foldlM_nil, recordField_recordKey, decodeMember,
      decodeStrings_map_str, Option.bind_eq_bind, Option.bind_some, Option.pure_def]
    rfl

----
-- Record Files
----

/- The path lies in the directory of the records. -/
def inMetadata (p : Text) : Bool := FileTree.under pruneMetadataDir p

section RecordFiles

variable {sha : Digest}

theorem noSlash_recordName (owner : Text) : '/' ∉ pruneRecordName sha owner := by
  rw [pruneRecordName, List.mem_append, not_or]
  refine ⟨fun hMem => ?_, by decide⟩
  exact absurd (sha.digits owner _ hMem) (by decide)

theorem inMetadata_recordPath (owner : Text) : inMetadata (pruneRecordPath sha owner) = true :=
  FileTree.under_append _ _

theorem recordPath_ne_metadataDir (owner : Text) :
    pruneRecordPath sha owner ≠ pruneMetadataDir := by
  intro hEq
  have hLength := congrArg List.length hEq
  simp [pruneRecordPath] at hLength

theorem hex_eq_of_recordPath_eq
    {o o' : Text} (hEq : pruneRecordPath sha o = pruneRecordPath sha o') :
    sha.hex o = sha.hex o' := by
  simpa [pruneRecordPath, pruneRecordName] using hEq

theorem not_inMetadata_of_valid {p : Text} (hValid : validatePrunePath p = .ok ()) :
    inMetadata p = false ∧ p ≠ pruneMetadataDir := by
  have hSegments : (Path.segments p).any reservedSegment = false := by
    unfold validatePrunePath at hValid
    split_ifs at hValid with hInvalid hReserved
    simpa using hReserved
  have hNoSlash : '/' ∉ pruneMetadataDir := by decide
  have hReserved : reservedSegment pruneMetadataDir = true := by decide
  constructor
  · rw [← Bool.not_eq_true]
    intro hIn
    obtain ⟨rest, rfl⟩ := FileTree.under_iff.mp hIn
    rw [Path.segments_append_sep hNoSlash, List.any_cons, hReserved] at hSegments
    simp at hSegments
  · rintro rfl
    rw [Path.segments_eq_singleton hNoSlash, List.any_cons, hReserved] at hSegments
    simp at hSegments

/- The place is the record directory or lies in it. -/
def AtMetadata (p : Text) : Prop := inMetadata p = true ∨ p = pruneMetadataDir

theorem not_atMetadata_of_valid {p : Text} (hValid : validatePrunePath p = .ok ()) :
    ¬ AtMetadata p := by
  obtain ⟨hOut, hNe⟩ := not_inMetadata_of_valid hValid
  rintro (hIn | hEq)
  · rw [hOut] at hIn
    cases hIn
  · exact hNe hEq

theorem atMetadata_recordPath (sha : Digest) (o : Text) : AtMetadata (pruneRecordPath sha o) :=
  .inl (inMetadata_recordPath o)

theorem checkPruneFile_record
    {t : FileTree} {owner : Text} (hDir : t.lookup pruneMetadataDir = none)
    (hFile : (t.lookup (pruneRecordPath sha owner)).isSome) :
    checkPruneFile t (pruneRecordPath sha owner) = .ok () := by
  have hIsDir : t.isDir pruneMetadataDir = true :=
    List.any_eq_true.mpr ⟨_, FileTree.mem_keys_iff_lookup.mpr hFile, inMetadata_recordPath owner⟩
  have hDirStat : t.stat pruneMetadataDir = some .dir := by simp [FileTree.stat, hDir, hIsDir]
  have hFileStat : t.stat (pruneRecordPath sha owner) = some .file := by simp [FileTree.stat, hFile]
  unfold checkPruneFile
  rw [show Path.components (pruneRecordPath sha owner) =
      [pruneMetadataDir, pruneRecordPath sha owner] from
    Path.components_child (by decide) (noSlash_recordName owner)]
  simp [checkComponents, hDirStat, hFileStat]

theorem readPruneRecord_ok {t : FileTree} {owner : Text} {paths : List Text}
    {remaining : Nat} (hDir : t.lookup pruneMetadataDir = none)
    (hFile : t.lookup (pruneRecordPath sha owner) = some (encodeRecord ⟨1, owner, paths⟩))
    (hOwner : owner ≠ []) (hBytes : Text.byteLen owner ≤ maxOwnerBytes)
    (hPaths : paths.length ≤ maxPrunePaths)
    (hRoom : sizeAt t (pruneRecordPath sha owner) ≤ remaining) :
    readPruneRecord sha t (pruneRecordName sha owner) remaining =
      .ok (⟨1, owner, paths.map Text.marshalled⟩, sizeAt t (pruneRecordPath sha owner)) := by
  have hSize : sizeAt t (pruneRecordPath sha owner) =
      Text.byteLen (encodeRecord ⟨1, owner, paths⟩) := by
    simp [sizeAt, hFile]
  obtain ⟨value, hScan, hDecode⟩ := decode_encodeRecord owner paths
  have hCheck : checkPruneFile t (pruneRecordPath sha owner) = .ok () :=
    checkPruneFile_record hDir (by simp [hFile])
  have hSpace : Json.skipSpace ['\n'] = [] := by decide
  rw [readPruneRecord, Fallible.bind_eq_ok]
  refine ⟨(), hCheck, ?_⟩
  rw [show pruneMetadataDir ++ '/' :: pruneRecordName sha owner
    = pruneRecordPath sha owner from rfl]
  simp only [hFile, hScan, hDecode, hSpace]
  rw [hSize] at hRoom ⊢
  rw [if_neg (by omega), if_neg (by simp), if_neg]
  simp [hOwner, hBytes, hPaths]

/- Reading depends on the room that is left only as far as the file has to fit. -/
theorem readPruneRecord_spec {t : FileTree} {name : Text} {remaining size : Nat}
    {record : PruneRecord} (hRead : readPruneRecord sha t name remaining = .ok (record, size)) :
    pruneMetadataDir ++ '/' :: name = pruneRecordPath sha record.owner ∧ size ≤ remaining ∧
      ∀ room, size ≤ room → readPruneRecord sha t name room = .ok (record, size) := by
  rw [readPruneRecord, Fallible.bind_eq_ok] at hRead
  obtain ⟨_, hCheck, hRead⟩ := hRead
  split at hRead
  · cases hRead
  · rename_i data hData
    split_ifs at hRead with hSize
    split at hRead
    · cases hRead
    · rename_i value rest hScan
      split at hRead
      · cases hRead
      · rename_i decoded hDecode
        split_ifs at hRead with hRest hInvalid
        obtain ⟨rfl, rfl⟩ := Prod.mk.inj (Except.ok.inj hRead)
        refine ⟨?_, Nat.le_of_not_lt hSize, fun room hRoom => ?_⟩
        · by_contra hNe
          exact hInvalid (.inr (.inr (.inr (.inl (Ne.symm hNe)))))
        · rw [readPruneRecord, Fallible.bind_eq_ok]
          refine ⟨(), hCheck, ?_⟩
          simp only [hData, if_neg (Nat.not_lt_of_le hRoom), hScan, hDecode, if_neg hRest,
            if_neg hInvalid]

/- Reading an owner's record looks at two places of the tree. -/
theorem readPruneRecord_congr {t t' : FileTree} {owner : Text} {remaining size : Nat}
    {record : PruneRecord} (hDir : t'.lookup pruneMetadataDir = t.lookup pruneMetadataDir)
    (hFile : t'.lookup (pruneRecordPath sha owner) = t.lookup (pruneRecordPath sha owner))
    (hRead : readPruneRecord sha t (pruneRecordName sha owner) remaining = .ok (record, size)) :
    readPruneRecord sha t' (pruneRecordName sha owner) remaining = .ok (record, size) := by
  have hPath : pruneMetadataDir ++ '/' :: pruneRecordName sha owner = pruneRecordPath sha owner :=
    rfl
  rw [readPruneRecord, Fallible.bind_eq_ok, hPath] at hRead ⊢
  obtain ⟨_, hCheck, hRead⟩ := hRead
  have hThere : (t.lookup (pruneRecordPath sha owner)).isSome = true := by
    by_contra hNone
    rw [Option.not_isSome_iff_eq_none] at hNone
    rw [hNone] at hRead
    cases hRead
  have hNoFile : t.lookup pruneMetadataDir = none := by
    by_contra hSome
    have hStat : t.stat pruneMetadataDir = some .file :=
      if_pos (Option.ne_none_iff_isSome.mp hSome)
    rw [checkPruneFile, pruneRecordPath,
      Path.components_child (by decide) (noSlash_recordName owner)] at hCheck
    simp [checkComponents, hStat] at hCheck
  refine ⟨(), checkPruneFile_record (hDir.trans hNoFile) (hFile ▸ hThere), ?_⟩
  rw [hFile]
  exact hRead

----
-- Loaded Records
----

/- The record that the tree has for the owner. -/
def RecordOf (sha : Digest) (t : FileTree) (owner : Text) (record : PruneRecord) : Prop :=
  record.owner = owner ∧ ∃ size,
    readPruneRecord sha t (pruneRecordName sha owner) maxPruneMetadataBytes = .ok (record, size)

variable {t : FileTree}

theorem RecordOf.unique {owner : Text} {record record' : PruneRecord}
    (hRecord : RecordOf sha t owner record) (hRecord' : RecordOf sha t owner record') :
    record = record' := by
  obtain ⟨-, size, hRead⟩ := hRecord
  obtain ⟨-, size', hRead'⟩ := hRecord'
  rw [hRead] at hRead'
  exact (Prod.mk.inj (Except.ok.inj hRead')).1

theorem RecordOf.mem_childNames {owner : Text} {record : PruneRecord}
    (hRecord : RecordOf sha t owner record) :
    pruneRecordName sha owner ∈ t.childNames pruneMetadataDir := by
  obtain ⟨-, size, hRead⟩ := hRecord
  rw [FileTree.mem_childNames]
  refine ⟨pruneRecordPath sha owner, ?_, FileTree.childName_append (noSlash_recordName owner)⟩
  rw [FileTree.mem_keys_iff_lookup]
  by_contra hNone
  rw [Option.not_isSome_iff_eq_none] at hNone
  rw [readPruneRecord, Fallible.bind_eq_ok] at hRead
  obtain ⟨_, -, hRead⟩ := hRead
  rw [show pruneMetadataDir ++ '/' :: pruneRecordName sha owner = pruneRecordPath sha owner
      from rfl, hNone] at hRead
  cases hRead

theorem recordOf_of_read {name : Text} {remaining size : Nat} {record : PruneRecord}
    (hRead : readPruneRecord sha t name remaining = .ok (record, size))
    (hRoom : remaining ≤ maxPruneMetadataBytes) :
    name = pruneRecordName sha record.owner ∧ RecordOf sha t record.owner record := by
  obtain ⟨hPath, hSize, hMore⟩ := readPruneRecord_spec hRead
  have hName : name = pruneRecordName sha record.owner := by
    simpa [pruneRecordPath] using hPath
  exact ⟨hName, rfl, size, hName ▸ hMore _ (hSize.trans hRoom)⟩

/- What stands in the loaded records is in the tree, and could be recorded. -/
structure PruneRecords.Sound (sha : Digest) (t : FileTree) (loaded : PruneRecords) : Prop where
  recordOf : ∀ o record, loaded.records.lookup o = some record → RecordOf sha t o record
  valid : ∀ o record, loaded.records.lookup o = some record →
    ∀ p ∈ record.paths, validatePrunePath p = .ok ()

theorem PruneRecords.Sound.valid_pathsOf {loaded : PruneRecords} (hSound : loaded.Sound sha t)
    {owner p : Text} (hP : p ∈ loaded.pathsOf owner) : validatePrunePath p = .ok () := by
  unfold PruneRecords.pathsOf at hP
  cases hRecord : loaded.records.lookup owner with
  | none =>
    rw [hRecord] at hP
    cases hP
  | some record =>
    rw [hRecord] at hP
    exact hSound.valid owner record hRecord p hP

variable {loaded : PruneRecords}

theorem loadEntries_sound {start : PruneRecords} {names : List Text}
    (hStart : start.Sound sha t) (hLoad : loadEntries sha t start names = .ok loaded) :
    loaded.Sound sha t ∧ (∀ o ∈ start.records.keys, o ∈ loaded.records.keys) ∧
      ∀ o record, RecordOf sha t o record → pruneRecordName sha o ∈ names →
        o ∈ loaded.records.keys := by
  induction names generalizing start with
  | nil =>
    obtain rfl : start = loaded := Except.ok.inj hLoad
    exact ⟨hStart, fun _ hO => hO, fun _ _ _ hNone => absurd hNone List.not_mem_nil⟩
  | cons name names ih =>
    simp only [loadEntries, Fallible.bind_eq_ok] at hLoad
    obtain ⟨⟨record, size⟩, hRead, owners, hClaim, hRest⟩ := hLoad
    obtain ⟨hName, hRecord⟩ := recordOf_of_read hRead (Nat.sub_le _ _)
    have hNext : PruneRecords.Sound sha t
        ⟨owners, start.records.insert record.owner record, start.total + size⟩ := by
      constructor
      · intro o record' hLookup
        rw [GoMap.lookup_insert_ite] at hLookup
        split_ifs at hLookup with hO
        · obtain rfl := Option.some.inj hLookup
          exact hO ▸ hRecord
        · exact hStart.recordOf o record' hLookup
      · intro o record' hLookup
        rw [GoMap.lookup_insert_ite] at hLookup
        split_ifs at hLookup with hO
        · obtain rfl := Option.some.inj hLookup
          exact (enterPaths_spec hClaim).1.1
        · exact hStart.valid o record' hLookup
    obtain ⟨hSound, hKept, hFound⟩ := ih hNext hRest
    refine ⟨hSound, fun o hO => hKept o ?_, fun o record' hRecord' hMem => ?_⟩
    · rw [← AList.mem_keys, AList.mem_insert]
      exact .inr hO
    · rcases List.mem_cons.mp hMem with hSame | hLater
      · -- the file is that of the record just read
        obtain ⟨hOwner, size', hRead'⟩ := hRecord'
        obtain ⟨-, -, hMore⟩ := readPruneRecord_spec hRead
        rw [hSame, hMore _ ((readPruneRecord_spec hRead).2.1.trans (Nat.sub_le _ _))] at hRead'
        obtain ⟨rfl, -⟩ := Prod.mk.inj (Except.ok.inj hRead')
        refine hKept o ?_
        rw [← AList.mem_keys, AList.mem_insert]
        exact .inl hOwner.symm
      · exact hFound o record' hRecord' hLater

/- Records that load are those of the tree, one by one. -/
theorem loadPruneRecords_sound (hLoad : loadPruneRecords sha t = .ok loaded) : loaded.Sound sha t ∧
      ∀ o record, loaded.records.lookup o = some record ↔ RecordOf sha t o record := by
  have hEmpty : PruneRecords.Sound sha t ⟨∅, ∅, 0⟩ := ⟨by simp, by simp⟩
  have hAll : loaded.Sound sha t ∧ ∀ o record, RecordOf sha t o record →
      o ∈ loaded.records.keys := by
    unfold loadPruneRecords at hLoad
    split at hLoad
    · rename_i hStat
      obtain rfl := Except.ok.inj hLoad
      refine ⟨hEmpty, fun o record hRecord => ?_⟩
      -- without the directory no file can be in it
      obtain ⟨p, hP, hChild⟩ := FileTree.mem_childNames.mp hRecord.mem_childNames
      have hUnder : FileTree.under pruneMetadataDir p = true := by
        by_contra hNot
        rw [FileTree.childName, if_neg hNot] at hChild
        cases hChild
      have hDir : t.isDir pruneMetadataDir = true := List.any_eq_true.mpr ⟨p, hP, hUnder⟩
      rw [FileTree.stat, if_pos hDir] at hStat
      split_ifs at hStat
    · cases hLoad
    · dsimp only at hLoad
      split_ifs at hLoad
      obtain ⟨hSound, -, hFound⟩ := loadEntries_sound hEmpty hLoad
      exact ⟨hSound, fun o record hRecord => hFound o record hRecord hRecord.mem_childNames⟩
  refine ⟨hAll.1, fun o record => ⟨hAll.1.recordOf o record, fun hRecord => ?_⟩⟩
  have hKey := hAll.2 o record hRecord
  rw [← AList.mem_keys, ← AList.lookup_isSome] at hKey
  obtain ⟨record', hLookup⟩ := Option.isSome_iff_exists.mp hKey
  rw [hLookup, (hAll.1.recordOf o record' hLookup).unique hRecord]

/- The record of the owner lists the path. -/
def Lists (sha : Digest) (t : FileTree) (owner p : Text) : Prop :=
  ∃ record, RecordOf sha t owner record ∧ p ∈ record.paths

theorem mem_pathsOf_iff (hLoad : loadPruneRecords sha t = .ok loaded) {owner p : Text} :
    p ∈ loaded.pathsOf owner ↔ Lists sha t owner p := by
  have hRecords := (loadPruneRecords_sound hLoad).2 owner
  unfold PruneRecords.pathsOf Lists
  cases hRecord : loaded.records.lookup owner with
  | none =>
    refine ⟨fun hP => absurd hP List.not_mem_nil, ?_⟩
    rintro ⟨record, hOf, -⟩
    rw [(hRecords record).mpr hOf] at hRecord
    cases hRecord
  | some record =>
    have hOf := (hRecords record).mp hRecord
    refine ⟨fun hP => ⟨record, hOf, hP⟩, ?_⟩
    rintro ⟨record', hOf', hP⟩
    rw [hOf.unique hOf']
    exact hP

end RecordFiles

----
-- What An Accepted Export Has Passed
----

variable {cfg : PruneConfig} {owners : GoMap Text Text} {p : Text}

theorem checkForeignClaim_eq_ok : checkForeignClaim cfg owners p = .ok () ↔
      ∀ o, owners.lookup p = some o → o = cfg.pruneOwner := by
  unfold checkForeignClaim
  cases owners.lookup p with
  | none => simp
  | some o => by_cases hO : o = cfg.pruneOwner <;> simp [hO]

/- The kept paths of an accepted export. -/
structure OwnedPaths (cfg : PruneConfig) (written : List Text) (owners : GoMap Text Text)
    (current : List Text) : Prop where
  nodup : current.Nodup
  length_le : current.length ≤ maxPrunePaths
  mem_iff : ∀ p, p ∈ current ↔ p ∈ pruneKeepSet cfg written
  written_mem : ∀ p ∈ written, p ∈ current
  valid : ∀ p ∈ current, validatePrunePath p = .ok ()
  unclaimed : cfg.prune = false → ∀ p ∈ current, ∀ o, owners.lookup p = some o → o = cfg.pruneOwner

variable {t : FileTree}

theorem validateOwnedPrunePaths_ok {written current : List Text}
    (hOk : validateOwnedPrunePaths t cfg written owners = .ok current) :
    OwnedPaths cfg written owners current := by
  unfold validateOwnedPrunePaths at hOk
  dsimp only at hOk
  split_ifs at hOk with hMany
  simp only [Fallible.bind_eq_ok] at hOk
  obtain ⟨_, hWritten, _, hKept, _, -, hEq⟩ := hOk
  obtain rfl : (pruneKeepSet cfg written).dedup = current := by simpa [pure, Except.pure] using hEq
  rw [Fallible.checkAll_eq_ok] at hWritten hKept
  have hKeptPath : ∀ p ∈ (pruneKeepSet cfg written).dedup,
      validatePrunePath p = .ok () ∧
        (cfg.prune = false → checkForeignClaim cfg owners p = .ok ()) := by
    intro p hP
    have hChecks := hKept p hP
    simp only [checkKeptPath, Fallible.bind_eq_ok] at hChecks
    obtain ⟨_, hValid, _, hForeign, -⟩ := hChecks
    refine ⟨hValid, fun hPrune => ?_⟩
    simpa [checkUnadvanced, hPrune] using hForeign
  exact
    { nodup := List.nodup_dedup _
      length_le := (List.dedup_sublist _).length_le.trans (Nat.le_of_not_lt hMany)
      mem_iff := fun p => List.mem_dedup
      written_mem := fun p hP => by
        have hIn := hWritten p hP
        unfold requireKept at hIn
        split_ifs at hIn with hMem
        exact hMem
      valid := fun p hP => (hKeptPath p hP).1
      unclaimed := fun hPrune p hP => checkForeignClaim_eq_ok.mp ((hKeptPath p hP).2 hPrune) }

/- The paths a record of the map lists. -/
def pathsIn (records : GoMap Text PruneRecord) (owner : Text) : List Text :=
  match records.lookup owner with
  | some record => record.paths
  | none => []

variable {records : GoMap Text PruneRecord}

/- Records that pass together have no path in common. -/
theorem checkClaimsOf_disjoint {self : Text} {claimedBy : GoMap Text Text} {owners : List Text}
    (hOk : checkClaimsOf self records claimedBy owners = .ok ()) :
    (∀ o ∈ owners, ∀ p ∈ pathsIn records o, claimedBy.lookup p = none) ∧
      owners.Pairwise fun o o' => ∀ p ∈ pathsIn records o', p ∉ pathsIn records o := by
  induction owners generalizing claimedBy with
  | nil => simp
  | cons o owners ih =>
    rw [checkClaimsOf, Fallible.bind_eq_ok] at hOk
    obtain ⟨entered, hEnter, hRest⟩ := hOk
    obtain ⟨⟨-, -, hFresh⟩, hEntered⟩ := enterPaths_spec hEnter
    obtain ⟨hNone, hPairs⟩ := ih hRest
    have hTail : ∀ o' ∈ owners, ∀ p ∈ pathsIn records o',
        p ∉ pathsIn records o ∧ claimedBy.lookup p = none := by
      intro o' hO' p hP
      have hLookup := hNone o' hO' p hP
      rw [hEntered p] at hLookup
      split_ifs at hLookup with hMem
      exact ⟨hMem, hLookup⟩
    refine ⟨List.forall_mem_cons.mpr ⟨hFresh, ?_⟩, List.pairwise_cons.mpr ⟨?_, hPairs⟩⟩
    · exact fun o' hO' p hP => (hTail o' hO' p hP).2
    · exact fun o' hO' p hP => (hTail o' hO' p hP).1

theorem checkSingleClaims_disjoint {self : Text} (hOk : checkSingleClaims records self = .ok ())
    {o o' : Text} (hNe : o ≠ o') (hP : p ∈ pathsIn records o) : p ∉ pathsIn records o' := by
  have hPairs := (checkClaimsOf_disjoint hOk).2
  have hListed : ∀ q, p ∈ pathsIn records q → q ∈ Text.sort records.keys := by
    intro q hQ
    rw [Text.mem_sort, ← AList.mem_keys, ← AList.lookup_isSome]
    unfold pathsIn at hQ
    cases hRecord : records.lookup q with
    | some record => rfl
    | none => simp [hRecord] at hQ
  intro hP'
  have : Std.Symm fun o o' : Text => ∀ p ∈ pathsIn records o', p ∉ pathsIn records o :=
    ⟨fun a b hAB q hA hB => hAB q hB hA⟩
  exact hPairs.forall (hListed o hP) (hListed o' hP') hNe p hP' hP

variable {sha : Digest}

theorem planOwnedPrune_ok {owner : Text} {loaded : PruneRecords} {current : List Text}
    {plan : OwnedPrunePlan} (hOk : planOwnedPrune sha t owner loaded current = .ok plan) :
    let record : PruneRecord := ⟨1, owner, Text.sort current⟩
    let records := loaded.records.insert owner record
    checkSingleClaims records owner = .ok () ∧ records.keys.length ≤ maxPruneOwners ∧
      loaded.total - sizeAt t (pruneRecordPath sha owner) + Text.byteLen (encodeRecord record) ≤
        maxPruneMetadataBytes ∧
      plan = ⟨pruneRecordPath sha owner, encodeRecord record,
        Text.sort ((loaded.pathsOf owner).filter (fun p => p ∉ current))⟩ := by
  unfold planOwnedPrune at hOk
  simp only [Fallible.bind_eq_ok] at hOk
  obtain ⟨_, -, _, hClaims, hOk⟩ := hOk
  split_ifs at hOk with hOwners hBytes
  refine ⟨hClaims, Nat.le_of_not_lt hOwners, Nat.le_of_not_lt hBytes, ?_⟩
  simpa using hOk.symm

/- An accepted owned export, with or without its record. -/
inductive OwnedExport (sha : Digest) (t : FileTree) (cfg : PruneConfig)
    (files : List FileEntry) (loaded : PruneRecords) (current : List Text) : TreeChange → Prop
  | suppressed (hPrune : cfg.prune = false) {filled : FileTree}
      (hFill : t.writeFiles (files.map fun f => (f.path, f.data)) = some filled) :
      OwnedExport sha t cfg files loaded current ⟨filled, files.map FileEntry.path, []⟩
  | advanced (hPrune : cfg.prune = true) {plan : OwnedPrunePlan}
      (hPlan : planOwnedPrune sha t cfg.pruneOwner loaded current = .ok plan)
      {filled cleared final : FileTree}
      (hFill : t.writeFiles (files.map fun f => (f.path, f.data)) = some filled)
      (hClear : filled.removeFiles plan.remove = some cleared)
      (hRecord : cleared.writeFile plan.recordPath plan.data = some final) :
      OwnedExport sha t cfg files loaded current
        ⟨final, files.map FileEntry.path ++ [plan.recordPath], plan.remove⟩

theorem fsResult_eq_ok {e : PruneError} {result : Option FileTree} :
    fsResult e result = .ok t ↔ result = some t := by
  cases result <;> simp [fsResult]

variable {files : List FileEntry} {change : TreeChange}

theorem writeExportFiles_owned (hOwner : cfg.pruneOwner ≠ [])
    (hOk : writeExportFiles sha t cfg files = .ok change) :
    Text.byteLen cfg.pruneOwner ≤ maxOwnerBytes ∧
      ∃ loaded current,
        loadPruneRecords sha t = .ok loaded ∧
        OwnedPaths cfg (files.map FileEntry.path) loaded.owners current ∧
        OwnedExport sha t cfg files loaded current change := by
  simp only [writeExportFiles, Fallible.bind_eq_ok, fsResult_eq_ok] at hOk
  obtain ⟨plan, hPrepare, filled, hFill, owned, hApply, pruned, hOrphans, hChange⟩ := hOk
  have hPruned : pruned = ⟨owned.tree, [], []⟩ := by
    simpa [pruneOrphans, hOwner] using hOrphans.symm
  subst hPruned
  unfold prepareOwnedPrune at hPrepare
  rw [if_neg hOwner] at hPrepare
  have hShort : ¬ maxOwnerBytes < Text.byteLen cfg.pruneOwner := by
    intro hLong
    rw [if_pos hLong] at hPrepare
    cases hPrepare
  rw [if_neg hShort] at hPrepare
  refine ⟨Nat.le_of_not_lt hShort, ?_⟩
  simp only [Fallible.bind_eq_ok] at hPrepare
  obtain ⟨loaded, hLoad, current, hValidate, hPrepare⟩ := hPrepare
  refine ⟨loaded, current, hLoad, validateOwnedPrunePaths_ok hValidate, ?_⟩
  cases hPrune : cfg.prune with
  | false =>
    rw [hPrune] at hPrepare
    obtain rfl : none = plan := Except.ok.inj hPrepare
    obtain rfl : ⟨filled, [], []⟩ = owned := by simpa [applyPlan] using hApply
    obtain rfl := Except.ok.inj hChange
    simpa using OwnedExport.suppressed hPrune hFill
  | true =>
    rw [hPrune, if_pos rfl, Fallible.bind_eq_ok] at hPrepare
    obtain ⟨plan', hPlan, hEq⟩ := hPrepare
    obtain rfl : some plan' = plan := Except.ok.inj hEq
    simp only [applyPlan, Fallible.bind_eq_ok, fsResult_eq_ok] at hApply
    obtain ⟨cleared, hClear, final, hRecord, hOwned⟩ := hApply
    obtain rfl := Except.ok.inj hOwned
    obtain rfl := Except.ok.inj hChange
    simpa using OwnedExport.advanced hPrune hPlan hFill hClear hRecord

/- Exported files lie outside the record directory. -/
theorem metadata_writeFiles {filled : FileTree}
    (hValid : ∀ p ∈ files.map FileEntry.path, validatePrunePath p = .ok ())
    (hFill : t.writeFiles (files.map fun f => (f.path, f.data)) = some filled) :
    ∀ p, AtMetadata p → filled.lookup p = t.lookup p := by
  intro p hAt
  apply FileTree.lookup_writeFiles_of_notMem hFill
  rw [List.map_map]
  intro hMem
  exact not_atMetadata_of_valid (hValid p hMem) hAt

/-
  In the directory of the records an accepted export changes the record of its owner, if it prunes,
  and nothing else.
-/
theorem OwnedExport.metadata {loaded : PruneRecords} {current : List Text}
    (hLoad : loadPruneRecords sha t = .ok loaded)
    (hPaths : OwnedPaths cfg (files.map FileEntry.path) loaded.owners current)
    (hExport : OwnedExport sha t cfg files loaded current change) {p : Text} (hAt : AtMetadata p) :
    change.tree.lookup p =
      if cfg.prune = true ∧ p = pruneRecordPath sha cfg.pruneOwner then
        some (encodeRecord ⟨1, cfg.pruneOwner, Text.sort current⟩)
      else t.lookup p := by
  have hWritten : ∀ p ∈ files.map FileEntry.path, validatePrunePath p = .ok () :=
    fun p hP => hPaths.valid p (hPaths.written_mem p hP)
  cases hExport with
  | suppressed hPrune hFill =>
    rw [if_neg (by simp [hPrune])]
    exact metadata_writeFiles hWritten hFill p hAt
  | @advanced hPrune plan hPlan filled cleared final hFill hClear hRecord =>
    obtain ⟨-, -, -, rfl⟩ := planOwnedPrune_ok hPlan
    have hStays : p ∉ Text.sort
        ((loaded.pathsOf cfg.pruneOwner).filter (fun p => p ∉ current)) := by
      intro hP
      rw [Text.mem_sort, List.mem_filter] at hP
      exact not_atMetadata_of_valid ((loadPruneRecords_sound hLoad).1.valid_pathsOf hP.1) hAt
    simp only [hPrune, true_and]
    rw [FileTree.lookup_writeFile hRecord, FileTree.lookup_removeFiles hClear, if_neg hStays,
      metadata_writeFiles hWritten hFill p hAt]

----
-- What An Accepted Export Has Written
----

/- The paths the tree has on record for the owner. -/
def recordedPaths (sha : Digest) (t : FileTree) (owner : Text) : List Text :=
  match loadPruneRecords sha t with
  | .ok loaded => loaded.pathsOf owner
  | .error _ => []

/-
  The prune of an export may remove the path: it is not kept, and it is on record for the owner or,
  without an owner, in the directory of a kept path.
-/
def InPruneScope (sha : Digest) (t : FileTree) (cfg : PruneConfig)
    (written : List Text) (p : Text) : Prop :=
  cfg.prune = true ∧ p ∉ pruneKeepSet cfg written ∧
    if cfg.pruneOwner = [] then FileTree.parentDir p ∈ managedDirs (pruneKeepSet cfg written)
    else p ∈ recordedPaths sha t cfg.pruneOwner

theorem mem_filesIn {dir : Text} : p ∈ t.filesIn dir ↔ p ∈ t.keys ∧ FileTree.parentDir p = dir := by
  rw [FileTree.filesIn, Text.mem_sort, List.mem_filter, decide_eq_true_eq]

theorem lookup_pruneOrphans {u : FileTree} {written : List Text} (hOwner : cfg.pruneOwner = [])
    (hOk : pruneOrphans sha u cfg written = .ok change)
    (hOut : ¬ InPruneScope sha t cfg written p) : change.tree.lookup p = u.lookup p := by
  unfold pruneOrphans at hOk
  split_ifs at hOk with hIdle
  · obtain rfl := Except.ok.inj hOk
    rfl
  · simp only [Fallible.bind_eq_ok] at hOk
    obtain ⟨loaded, -, hOk⟩ := hOk
    split at hOk
    · cases hOk
    · simp only [Fallible.bind_eq_ok, fsResult_eq_ok] at hOk
      obtain ⟨swept, hSweep, hChange⟩ := hOk
      obtain rfl := Except.ok.inj hChange
      rw [FileTree.lookup_removeFiles hSweep, if_neg]
      intro hStale
      simp only [orphans, List.mem_flatMap, List.mem_filter,
        Bool.and_eq_true, decide_eq_true_eq, mem_filesIn] at hStale
      obtain ⟨dir, hDir, ⟨-, hParent⟩, hNotKept, -⟩ := hStale
      refine hOut ⟨by simpa [hOwner] using hIdle, hNotKept, ?_⟩
      rw [if_pos hOwner, hParent]
      exact hDir

/-
  An accepted export writes its files; outside its scope the prune, and the record it leaves, change
  nothing more.
-/
theorem writeExportFiles_fill (hOk : writeExportFiles sha t cfg files = .ok change) :
    ∃ filled,
      t.writeFiles (files.map fun f => (f.path, f.data)) = some filled ∧
        ∀ p, validatePrunePath p = .ok () → ¬ InPruneScope sha t cfg (files.map FileEntry.path) p →
          change.tree.lookup p = filled.lookup p := by
  by_cases hOwner : cfg.pruneOwner = []
  · simp only [writeExportFiles, Fallible.bind_eq_ok, fsResult_eq_ok] at hOk
    obtain ⟨plan, hPrepare, filled, hFill, owned, hApply, pruned, hOrphans, hChange⟩ := hOk
    obtain rfl := Except.ok.inj hChange
    rw [prepareOwnedPrune, if_pos hOwner] at hPrepare
    obtain rfl := Except.ok.inj hPrepare
    obtain rfl := Except.ok.inj hApply
    exact ⟨filled, hFill, fun p _ hOut => (lookup_pruneOrphans hOwner hOrphans hOut :)⟩
  · obtain ⟨-, loaded, current, hLoad, hPaths, hExport⟩ := writeExportFiles_owned hOwner hOk
    cases hExport with
    | suppressed hPrune hFill => exact ⟨_, hFill, fun _ _ _ => rfl⟩
    | advanced hPrune hPlan hFill hClear hRecord =>
      obtain ⟨-, -, -, rfl⟩ := planOwnedPrune_ok hPlan
      refine ⟨_, hFill, fun p hValid hOut => ?_⟩
      have hNotRecord : p ≠ pruneRecordPath sha cfg.pruneOwner := by
        rintro rfl
        have hMetadata := (not_inMetadata_of_valid hValid).1
        rw [inMetadata_recordPath] at hMetadata
        cases hMetadata
      rw [FileTree.lookup_writeFile hRecord, if_neg hNotRecord,
        FileTree.lookup_removeFiles hClear, if_neg]
      rw [Text.mem_sort, List.mem_filter]
      rintro ⟨hOld, hStale⟩
      refine hOut ⟨hPrune, fun hKept =>
        decide_eq_true_eq.mp hStale ((hPaths.mem_iff p).mpr hKept), ?_⟩
      rw [if_neg hOwner, recordedPaths, hLoad]
      exact hOld

theorem lookup_metadataDir_of_writeFile {t' : FileTree} {owner data : Text}
    (hWrite : t.writeFile (pruneRecordPath sha owner) data = some t') :
    t'.lookup pruneMetadataDir = none := by
  have hDir : t.lookup pruneMetadataDir = none := by
    unfold FileTree.writeFile at hWrite
    rw [show Path.components (pruneRecordPath sha owner) =
        [pruneMetadataDir, pruneRecordPath sha owner] from
      Path.components_child (by decide) (noSlash_recordName owner)] at hWrite
    split_ifs at hWrite with hBlocked
    rw [Bool.or_eq_true, not_or] at hBlocked
    simpa using hBlocked.1
  rw [FileTree.lookup_writeFile hWrite, if_neg (recordPath_ne_metadataDir owner).symm]
  exact hDir

theorem readPruneRecord_writeExportFiles (hOwner : cfg.pruneOwner ≠ []) (hPrune : cfg.prune = true)
    (hOk : writeExportFiles sha t cfg files = .ok change) :
    ∃ owners current size, OwnedPaths cfg (files.map FileEntry.path) owners current ∧
        readPruneRecord sha change.tree (pruneRecordName sha cfg.pruneOwner) maxPruneMetadataBytes =
          .ok (⟨1, cfg.pruneOwner, (Text.sort current).map Text.marshalled⟩, size) := by
  rcases writeExportFiles_owned hOwner hOk with ⟨hShort, loaded, current, hLoad, hPaths, hExport⟩
  cases hExport with
  | suppressed hOff hFill =>
    rw [hPrune] at hOff
    cases hOff
  | @advanced _ plan hPlan filled cleared final hFill hClear
      hRecord =>
      rcases planOwnedPrune_ok hPlan with ⟨hClaims, hCount, hBytes, hEq⟩
      subst hEq
      have hFile : final.lookup (pruneRecordPath sha cfg.pruneOwner) =
            some (encodeRecord ⟨1, cfg.pruneOwner, Text.sort current⟩) := by
        rw [FileTree.lookup_writeFile hRecord, if_pos rfl]
      have hSize : sizeAt final (pruneRecordPath sha cfg.pruneOwner) ≤ maxPruneMetadataBytes := by
        unfold sizeAt
        rw [hFile]
        exact (Nat.le_add_left _ _).trans hBytes
      exact ⟨loaded.owners, current, _, hPaths, readPruneRecord_ok
          (lookup_metadataDir_of_writeFile hRecord) hFile hOwner hShort
          (by rw [Text.length_sort]; exact hPaths.length_le) hSize⟩

/-
  The files of a validated export. Without an owner the keep set of a prune, when given, contains
  the written paths: it is the union of the parts. With an owner this is checked.
-/
structure ValidatedExport where
  cfg : PruneConfig
  files : List FileEntry
  nodup : (files.map FileEntry.path).Nodup
  valid : ∀ f ∈ files, validatePrunePath f.path = .ok ()
  kept : cfg.pruneOwner ≠ [] ∨ cfg.pruneKeepPaths = [] ∨ ∀ f ∈ files, f.path ∈ cfg.pruneKeepPaths

def HasFiles (t : FileTree) (files : List FileEntry) : Prop :=
  ∀ f ∈ files, t.lookup f.path = some f.data

theorem hasFiles_writeFiles {filled : FileTree} (hNodup : (files.map FileEntry.path).Nodup)
    (hFill : t.writeFiles (files.map fun f => (f.path, f.data)) = some filled) :
    HasFiles filled files := by
  intro f hF
  have hEntry : (f.path, f.data) ∈ files.map fun f => (f.path, f.data) :=
    List.mem_map.mpr ⟨f, hF, rfl⟩
  exact FileTree.lookup_writeFiles (by simpa [List.map_map, Function.comp_def] using hNodup)
    hFill hEntry

variable {e : ValidatedExport}

variable (hOk : writeExportFiles sha t e.cfg e.files = .ok change)

include hOk

theorem mem_keepSet {f : FileEntry} (hF : f ∈ e.files) :
    f.path ∈ pruneKeepSet e.cfg (e.files.map FileEntry.path) := by
  have hPath : f.path ∈ e.files.map FileEntry.path := List.mem_map.mpr ⟨f, hF, rfl⟩
  rcases e.kept with hOwner | hKept
  · obtain ⟨-, loaded, current, -, hPaths, -⟩ := writeExportFiles_owned hOwner hOk
    exact (hPaths.mem_iff _).mp (hPaths.written_mem _ hPath)
  · unfold pruneKeepSet
    split_ifs with hEmpty
    · exact hPath
    · exact hKept.resolve_left hEmpty f hF

theorem hasFiles_writeExportFiles : HasFiles change.tree e.files := by
  obtain ⟨filled, hFill, hRest⟩ := writeExportFiles_fill hOk
  intro f hF
  rw [hRest f.path (e.valid f hF) (fun hScope => hScope.2.1 (mem_keepSet hOk hF))]
  exact hasFiles_writeFiles e.nodup hFill f hF

theorem lookup_writeExportFiles {f : FileEntry} (hValid : validatePrunePath f.path = .ok ())
    (hFile : t.lookup f.path = some f.data)
    (hSame : ∀ g ∈ e.files, g.path = f.path → g.data = f.data)
    (hOut : ¬ InPruneScope sha t e.cfg (e.files.map FileEntry.path) f.path) :
    change.tree.lookup f.path = some f.data := by
  obtain ⟨filled, hFill, hRest⟩ := writeExportFiles_fill hOk
  rw [hRest f.path hValid hOut]
  by_cases hWritten : f.path ∈ e.files.map FileEntry.path
  · obtain ⟨g, hG, hPath⟩ := List.mem_map.mp hWritten
    rw [← hPath, hasFiles_writeFiles e.nodup hFill g hG, hSame g hG hPath]
  · rw [FileTree.lookup_writeFiles_of_notMem hFill
      (by simpa [List.map_map, Function.comp_def] using hWritten), hFile]

end Git
end Sink
end Kollect
