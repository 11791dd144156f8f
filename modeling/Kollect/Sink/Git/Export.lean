import Kollect.PathValidate
import Kollect.Sink.Git.Ownership

/-
  Exports to and deletions from one remote branch by one process (`sink/git/export.go`,
  `sink/git/delete.go`, `sink/git/validate.go`, `sink/git/fingerprint.go`).

  The process keeps, for each export key, the fingerprint of the last export that succeeded; an
  export with the same fingerprint returns nil without touching the remote.

  A call works on the tree its clone starts from (`base`), and its commit may reach the remote
  (`landed`) with or without the process learning of it (`acked`). A call that learns of it
  succeeds. The files a recorded export passed are kept beside the table; nothing reads them, they
  say what an entry of the table vouches for.

  Deletions leave the table alone, and so does an export that lands without success: an entry may
  outlive its files.

  Key theorems include:
    * `Process.step_vouched`
    * `exports_deliver`
-/

namespace Kollect
namespace Sink
namespace Git

open PathValidate

----
-- Validation
----

inductive ExportError where
  | noFiles
  | emptyPayload (p : Text)
  | badPath (e : PathError)
  | notOwnable (e : PruneError)
  | duplicatePath (p : Text)
deriving DecidableEq, Repr

def defaultObjectKey : Text := "inventory/latest.json"

/- The path a file is written at. -/
def objectKey (p : Text) : Except PathError Text := do
  let p ← validateRelativeObjectPath p
  pure (if p = [] then defaultObjectKey else p)

def validateFile (f : FileEntry) : Except ExportError FileEntry :=
  if f.data = [] then .error (.emptyPayload f.path)
  else do
    let p ← (objectKey f.path).mapError .badPath
    let _ ← (validatePrunePath p).mapError .notOwnable
    pure ⟨p, f.data⟩

/- No path is written twice. -/
def validateFiles (seen : List Text) : List FileEntry → Except ExportError (List FileEntry)
  | [] => .ok []
  | f :: files => do
      let f ← validateFile f
      if f.path ∈ seen then .error (.duplicatePath f.path)
      else do
        let rest ← validateFiles (f.path :: seen) files
        pure (f :: rest)

/- Only a prune of an owner may come without files. -/
def validateExportFiles (cfg : PruneConfig) (files : List FileEntry) :
    Except ExportError (List FileEntry) :=
  if files = [] ∧ (cfg.pruneOwner = [] ∨ cfg.prune = false) then .error .noFiles
  else validateFiles [] files

/- Empty and repeated paths of a deletion are dropped. -/
def validateDeletePaths (seen : List Text) : List Text → Except PathError (List Text)
  | [] => .ok []
  | p :: paths => do
      let p ← validateRelativeObjectPath p
      if p = [] ∨ p ∈ seen then validateDeletePaths seen paths
      else do
        let rest ← validateDeletePaths (p :: seen) paths
        pure (p :: rest)

----
-- Fingerprints
----

/- The escapes of `strconv.Quote` with a letter. -/
def goEscapes : List (Char × Char) :=
  [('\x07', 'a'), ('\x08', 'b'), ('\x0c', 'f'), ('\n', 'n'),
    ('\r', 'r'), ('\t', 't'), ('\x0b', 'v')]

/- One rune of `strconv.Quote`, by Unicode's printable runes. -/
def quoteRune (isPrint : Char → Bool) (c : Char) : Text :=
  if c = '"' ∨ c = '\\' then ['\\', c]
  else if isPrint c then [c]
  else
    match goEscapes.lookup c with
    | some letter => ['\\', letter]
    | none =>
      if c.toNat < 0x20 ∨ c.toNat = 0x7f then '\\' :: 'x' :: Text.digitsPadded 16 2 c.toNat
      else if c.toNat < 0x10000 then '\\' :: 'u' :: Text.digitsPadded 16 4 c.toNat
      else '\\' :: 'U' :: Text.digitsPadded 16 8 c.toNat

def goQuote (isPrint : Char → Bool) (s : Text) : Text :=
  '"' :: s.flatMap (quoteRune isPrint) ++ ['"']

def goQuoteAll (isPrint : Char → Bool) (values : List Text) : Text :=
  '[' :: [' '].intercalate (values.map (goQuote isPrint)) ++ [']']

def boolText (b : Bool) : Text := if b then "true" else "false"

def exportFingerprintKey (endpoint branch objectPath : Text) : Text :=
  Text.trimSpace endpoint ++ '\x00' ::
    (Text.trimSpace branch ++ '\x00' :: Text.trimSpace objectPath)

abbrev FingerprintTracker := GoMap Text Text

namespace FingerprintTracker

/- An export without a checksum is never skipped. -/
def shouldSkip (tracker : FingerprintTracker) (key checksum : Text) : Bool :=
  decide (Text.trimSpace checksum ≠ []) &&
    decide (tracker.lookup key = some (Text.trimSpace checksum))

def record (tracker : FingerprintTracker) (key checksum : Text) : FingerprintTracker :=
  if Text.trimSpace checksum = [] then tracker.erase key
  else tracker.insert key (Text.trimSpace checksum)

end FingerprintTracker

/-
  The key and the fingerprint of an export. With an owner the key is the owner's and the fingerprint
  also covers the paths; the bytes it covers by the checksum only.
-/
def ownedExportFingerprint (sha : Digest) (isPrint : Char → Bool)
    (endpoint branch objectPath checksum : Text) (cfg : PruneConfig)
    (files : List FileEntry) : Text × Text :=
  if cfg.pruneOwner = [] then (exportFingerprintKey endpoint branch objectPath, checksum)
  else
    let key := exportFingerprintKey endpoint branch [] ++ '\x00' ::
        (("owner" : Text) ++ '\x00' :: cfg.pruneOwner)
    let checksum := Text.trimSpace checksum
    if checksum = [] then (key, [])
    else
      let paths := files.map FileEntry.path
      let keep := pruneKeepSet cfg paths
      (key, sha.hex (goQuote isPrint checksum ++ '/' :: (boolText cfg.prune ++ '/' ::
            (goQuoteAll isPrint (Text.sort paths) ++ '/' :: goQuoteAll isPrint (Text.sort keep)))))

----
-- Calls
----

/- The tree a call starts from, and what its push does. -/
structure Transport where
  base : FileTree
  landed : Bool
  acked : Bool

/- The remote after the call's commit, and its success. -/
def Transport.deliver (transport : Transport) (remote : FileTree) :
    Except PruneError TreeChange → FileTree × Bool
  | .error _ => (remote, false)
  | .ok change =>
    if transport.landed then (change.tree, transport.acked)
    else (remote, false)

structure ExportCall where
  endpoint : Text
  cfg : PruneConfig
  files : List FileEntry
  checksum : Text
  transport : Transport

structure DeleteCall where
  owner : Text
  keepFiles : Bool
  paths : List Text
  transport : Transport

/-
  The table of the process, the tree of the remote branch, and the files passed to the recorded
  exports.
-/
structure Process where
  tracker : FingerprintTracker
  remote : FileTree
  delivered : GoMap Text (Text × List FileEntry)

section Calls

variable (sha : Digest) (isPrint : Char → Bool) (branch : Text)

/- The first file, or the record when there is none. -/
def ExportCall.objectPath (c : ExportCall) (validated : List FileEntry) : Text :=
  match validated with
  | f :: _ => f.path
  | [] => pruneRecordPath sha c.cfg.pruneOwner

def ExportCall.fingerprint (c : ExportCall) (validated : List FileEntry) : Text × Text :=
  ownedExportFingerprint sha isPrint c.endpoint branch
    (c.objectPath sha validated) c.checksum c.cfg validated

/- A success is recorded, with the files it passed. -/
def Process.record (s : Process) (key fingerprint : Text) (files : List FileEntry) : Process where
  tracker := s.tracker.record key fingerprint
  remote := s.remote
  delivered :=
    if Text.trimSpace fingerprint = [] then s.delivered.erase key
    else s.delivered.insert key (Text.trimSpace fingerprint, files)

/- The process after an export, and whether it returns nil. -/
def exportFilesWithBranch (s : Process) (c : ExportCall) : Process × Bool :=
  match validateExportFiles c.cfg c.files with
  | .error _ => (s, false)
  | .ok validated =>
    let (key, fingerprint) := c.fingerprint sha isPrint branch validated
    if s.tracker.shouldSkip key fingerprint then (s, true)
    else
      let (remote, ok) :=
        c.transport.deliver s.remote (writeExportFiles sha c.transport.base c.cfg validated)
      let s := { s with remote := remote }
      if ok then (s.record key fingerprint validated, true)
      else (s, false)

/- The process after a deletion. -/
def deleteExportWithBranch (s : Process) (c : DeleteCall) : Process :=
  match validateDeletePaths [] c.paths with
  | .error _ => s
  | .ok validated =>
    if validated = [] ∧ c.owner = [] then s
    else
      let (remote, _) := c.transport.deliver s.remote
          (releaseExport sha c.transport.base c.owner c.keepFiles validated)
      { s with remote := remote }

inductive BranchEvent where
  | exportFiles (c : ExportCall)
  | deleteExport (c : DeleteCall)

def Process.step (s : Process) : BranchEvent → Process
  | .exportFiles c => (exportFilesWithBranch sha isPrint branch s c).1
  | .deleteExport c => deleteExportWithBranch sha s c

/- The remote has what was passed, byte for byte. -/
def HasPassed (remote : FileTree) (files : List FileEntry) : Prop :=
  ∀ f ∈ files, ∃ p, objectKey f.path = .ok p ∧ remote.lookup p = some f.data

/- An export that returns nil has delivered. -/
def ExportDelivers (s : Process) : BranchEvent → Prop
  | .exportFiles c =>
    (exportFilesWithBranch sha isPrint branch s c).2 = true →
      HasPassed (exportFilesWithBranch sha isPrint branch s c).1.remote c.files
  | .deleteExport _ => True

end Calls

----
-- What Validation Guarantees
----

theorem validateFile_ok {f g : FileEntry} (hOk : validateFile f = .ok g) :
    objectKey f.path = .ok g.path ∧ g.data = f.data ∧ validatePrunePath g.path = .ok () := by
  unfold validateFile at hOk
  split_ifs at hOk
  simp only [Fallible.bind_eq_ok, Fallible.mapError_eq_ok] at hOk
  obtain ⟨p, hKey, _, hValid, hEq⟩ := hOk
  obtain rfl := Except.ok.inj hEq
  exact ⟨hKey, rfl, hValid⟩

variable {files validated : List FileEntry}

theorem validateFiles_ok {seen : List Text} (hOk : validateFiles seen files = .ok validated) :
    (validated.map FileEntry.path).Nodup ∧
      (∀ f ∈ validated, f.path ∉ seen ∧ validatePrunePath f.path = .ok ()) ∧
      ∀ f ∈ files, ∃ g ∈ validated, objectKey f.path = .ok g.path ∧ g.data = f.data := by
  induction files generalizing seen validated with
  | nil =>
    obtain rfl := Except.ok.inj hOk
    simp
  | cons f files ih =>
    rw [validateFiles, Fallible.bind_eq_ok] at hOk
    obtain ⟨g, hFile, hOk⟩ := hOk
    split_ifs at hOk with hSeen
    rw [Fallible.bind_eq_ok] at hOk
    obtain ⟨rest, hRest, hEq⟩ := hOk
    obtain rfl := Except.ok.inj hEq
    obtain ⟨hKey, hData, hValid⟩ := validateFile_ok hFile
    obtain ⟨hNodup, hFresh, hPassed⟩ := ih hRest
    refine ⟨?_, ?_, ?_⟩
    · rw [List.map_cons, List.nodup_cons]
      refine ⟨?_, hNodup⟩
      intro hMem
      obtain ⟨h, hH, hPath⟩ := List.mem_map.mp hMem
      exact (hFresh h hH).1 (hPath ▸ List.mem_cons_self)
    · intro h hH
      rcases List.mem_cons.mp hH with rfl | hTail
      · exact ⟨hSeen, hValid⟩
      · obtain ⟨hNot, hPath⟩ := hFresh h hTail
        exact ⟨fun hMem => hNot (List.mem_cons_of_mem _ hMem), hPath⟩
    · intro h hH
      rcases List.mem_cons.mp hH with rfl | hTail
      · exact ⟨g, List.mem_cons_self, hKey, hData⟩
      · obtain ⟨g', hG', hRest⟩ := hPassed h hTail
        exact ⟨g', List.mem_cons_of_mem _ hG', hRest⟩

theorem validateExportFiles_ok {cfg : PruneConfig}
    (hOk : validateExportFiles cfg files = .ok validated) :
    (validated.map FileEntry.path).Nodup ∧ (∀ f ∈ validated, validatePrunePath f.path = .ok ()) ∧
      ∀ f ∈ files, ∃ g ∈ validated, objectKey f.path = .ok g.path ∧ g.data = f.data := by
  unfold validateExportFiles at hOk
  split_ifs at hOk
  obtain ⟨hNodup, hFresh, hPassed⟩ := validateFiles_ok hOk
  exact ⟨hNodup, fun f hF => (hFresh f hF).2, hPassed⟩

/- A path that may be recorded is written where it says. -/
theorem objectKey_of_valid {p q : Text} (hValid : validatePrunePath p = .ok ())
    (hKey : objectKey p = .ok q) : q = p := by
  unfold validatePrunePath at hValid
  split_ifs at hValid with hShape hReserved
  simp only [not_or, not_not] at hShape
  rcases hShape with ⟨-, hNe, hTrim, -, hClean, -⟩
  unfold objectKey validateRelativeObjectPath at hKey
  simp only [Fallible.bind_eq_ok] at hKey
  rcases hKey with ⟨p', hRelative, hEq⟩
  rw [← hTrim, if_neg hNe, hClean] at hRelative
  split_ifs at hRelative
  rw [← Except.ok.inj hRelative, if_neg hNe] at hEq
  exact (Except.ok.inj hEq).symm

theorem validateFiles_eq_self {seen : List Text}
    (hValid : ∀ f ∈ files, validatePrunePath f.path = .ok ())
    (hOk : validateFiles seen files = .ok validated) : validated = files := by
  induction files generalizing seen validated with
  | nil => exact (Except.ok.inj hOk).symm
  | cons f files ih =>
    rw [List.forall_mem_cons] at hValid
    rw [validateFiles, Fallible.bind_eq_ok] at hOk
    rcases hOk with ⟨g, hFile, hOk⟩
    split_ifs at hOk with hSeen
    rw [Fallible.bind_eq_ok] at hOk
    rcases hOk with ⟨rest, hRest, hEq⟩
    rcases validateFile_ok hFile with ⟨hKey, hData, -⟩
    have hPath : g.path = f.path := objectKey_of_valid hValid.1 hKey
    have hSame : g = f := by
      cases g
      cases f
      cases hPath
      cases hData
      rfl
    rw [← Except.ok.inj hEq, ih hValid.2 hRest, hSame]

theorem hasPassed_of_hasFiles {cfg : PruneConfig}
    (hOk : validateExportFiles cfg files = .ok validated) {remote : FileTree}
    (hFiles : HasFiles remote validated) : HasPassed remote files := by
  intro f hF
  obtain ⟨g, hG, hKey, hData⟩ := (validateExportFiles_ok hOk).2.2 f hF
  exact ⟨g.path, hKey, hData ▸ hFiles g hG⟩

----
-- Vouching
----

section Vouching

variable (sha : Digest) (isPrint : Char → Bool) (branch : Text)

/- The export starts from the remote's version of the file, and neither overwrites nor prunes it. -/
def ExportCall.Leaves (c : ExportCall) (validated : List FileEntry)
    (remote : FileTree) (f : FileEntry) : Prop :=
  c.transport.base.lookup f.path = remote.lookup f.path ∧
    (∀ g ∈ validated, g.path = f.path → g.data = f.data) ∧
    ¬ InPruneScope sha c.transport.base c.cfg (validated.map FileEntry.path) f.path

/-
  The deletion starts from the remote's version of the file; the file is not on record for its
  owner, and no candidate matches it.
-/
def DeleteCall.Leaves (c : DeleteCall) (validated : List Text) (remote : FileTree)
    (f : FileEntry) : Prop :=
  c.transport.base.lookup f.path = remote.lookup f.path ∧ (c.keepFiles = true ∨
      f.path ∉ recordedPaths sha c.transport.base c.owner ∧
        ∀ m ∈ validated.flatMap cleanupMatchers, m.lists f.path = false)

/- Every file an entry other than `except_` vouches for. -/
def Process.EachVouched (s : Process) (except_ : Option Text) (P : FileEntry → Prop) : Prop :=
  ∀ key fingerprint files, s.delivered.lookup key = some (fingerprint, files) →
    some key ≠ except_ → ∀ f ∈ files, P f

/-
  An export with the key and the fingerprint of a recorded one passes only files that one passed. A
  call that lands leaves what the table vouches for, apart from the entry that its own success
  replaces.
-/
def Truthful (s : Process) : BranchEvent → Prop
  | .exportFiles c => ∀ validated,
      validateExportFiles c.cfg c.files = .ok validated →
      let key := (c.fingerprint sha isPrint branch validated).1
      let fingerprint := (c.fingerprint sha isPrint branch validated).2
      (∀ files, s.delivered.lookup key = some (Text.trimSpace fingerprint, files) →
        ∀ f ∈ validated, f ∈ files) ∧
      (s.tracker.shouldSkip key fingerprint = false → c.transport.landed = true → s.EachVouched
          (if c.transport.acked then some key else none) (c.Leaves sha validated s.remote))
  | .deleteExport c => ∀ validated, validateDeletePaths [] c.paths = .ok validated →
      c.transport.landed = true → s.EachVouched none (c.Leaves sha validated s.remote)

/-
  A successful export delivers: without an owner, a keep set that is given contains what is written.
-/
def KeepsWritten : BranchEvent → Prop
  | .exportFiles c => ∀ validated, validateExportFiles c.cfg c.files = .ok validated →
      c.cfg.pruneOwner ≠ [] ∨ c.cfg.pruneKeepPaths = [] ∨
        ∀ f ∈ validated, f.path ∈ c.cfg.pruneKeepPaths
  | .deleteExport _ => True

/- The table is about files the remote has. -/
structure Process.Vouched (s : Process) : Prop where
  tracked : ∀ key, s.tracker.lookup key = (s.delivered.lookup key).map Prod.fst
  valid : s.EachVouched none fun f => validatePrunePath f.path = .ok ()
  present : s.EachVouched none fun f => s.remote.lookup f.path = some f.data

variable {sha isPrint branch}

theorem Transport.deliver_cases (transport : Transport) (remote : FileTree)
    (result : Except PruneError TreeChange) :
    transport.deliver remote result = (remote, false) ∨ ∃ change, result = .ok change ∧
        transport.landed = true ∧
        transport.deliver remote result = (change.tree, transport.acked) := by
  cases result with
  | error e => exact .inl rfl
  | ok change =>
    cases hLanded : transport.landed with
    | false => simp [deliver, hLanded]
    | true => exact .inr ⟨change, rfl, rfl, by simp [deliver, hLanded]⟩

theorem ExportCall.landed {c : ExportCall} {change : TreeChange}
    (hKept : KeepsWritten (.exportFiles c))
    (hValidate : validateExportFiles c.cfg c.files = .ok validated)
    (hOk : writeExportFiles sha c.transport.base c.cfg validated = .ok change) :
    HasFiles change.tree validated ∧ ∀ remote f, validatePrunePath f.path = .ok () →
        remote.lookup f.path = some f.data → c.Leaves sha validated remote f →
        change.tree.lookup f.path = some f.data := by
  obtain ⟨hNodup, hValid, -⟩ := validateExportFiles_ok hValidate
  let e : ValidatedExport := ⟨c.cfg, validated, hNodup, hValid, hKept validated hValidate⟩
  have hWrite : writeExportFiles sha c.transport.base e.cfg e.files = .ok change := hOk
  refine ⟨hasFiles_writeExportFiles hWrite, ?_⟩
  rintro remote f hPath hFile ⟨hBase, hSame, hOut⟩
  exact lookup_writeExportFiles hWrite hPath (hBase.trans hFile) hSame hOut

theorem DeleteCall.landed {c : DeleteCall} {validated : List Text} {change : TreeChange}
    (hOk : releaseExport sha c.transport.base c.owner c.keepFiles validated = .ok change)
    {remote : FileTree} {f : FileEntry} (hPath : validatePrunePath f.path = .ok ())
    (hFile : remote.lookup f.path = some f.data) (hLeaves : c.Leaves sha validated remote f) :
    change.tree.lookup f.path = some f.data := by
  obtain ⟨hLost, hRemoved⟩ := releaseExport_lost hOk
  rw [hLost f.path, if_neg, hLeaves.1, hFile]
  intro hMem
  rcases hRemoved f.path hMem with hRecord | ⟨hKeep, hListed⟩
  · refine not_atMetadata_of_valid hPath ?_
    rw [hRecord]
    exact atMetadata_recordPath sha c.owner
  · rcases hLeaves.2 with hKeep' | ⟨hUnrecorded, hUnmatched⟩
    · rw [hKeep] at hKeep'
      cases hKeep'
    · rcases hListed with hRecorded | ⟨m, hM, hLists⟩
      · exact hUnrecorded hRecorded
      · rw [hUnmatched m hM] at hLists
        cases hLists

namespace Process

variable {s : Process}

variable {P : FileEntry → Prop}

theorem Vouched.present_of_leaves (hVouched : s.Vouched) {except_ : Option Text}
    {Q : FileEntry → Prop} (hLeaves : s.EachVouched except_ P)
    (hKeeps : ∀ f, validatePrunePath f.path = .ok () →
      s.remote.lookup f.path = some f.data → P f → Q f) : s.EachVouched except_ Q := by
  intro key fingerprint files hEntry hKey f hF
  exact hKeeps f (hVouched.valid key fingerprint files hEntry (by simp) f hF)
    (hVouched.present key fingerprint files hEntry (by simp) f hF)
    (hLeaves key fingerprint files hEntry hKey f hF)

theorem Vouched.setRemote (hVouched : s.Vouched) {remote : FileTree}
    (hPresent : s.EachVouched none fun f => remote.lookup f.path = some f.data) :
    Vouched { s with remote := remote } :=
  ⟨hVouched.tracked, hVouched.valid, hPresent⟩

variable {key : Text} {files : List FileEntry}

theorem EachVouched.record (hOthers : s.EachVouched (some key) P) (fingerprint : Text)
    (hFiles : ∀ f ∈ files, P f) : (s.record key fingerprint files).EachVouched none P := by
  intro key' fingerprint' files' hEntry _ f hF
  unfold Process.record at hEntry
  split_ifs at hEntry
  · rw [GoMap.lookup_erase_ite] at hEntry
    split_ifs at hEntry with hKey
    exact hOthers key' fingerprint' files' hEntry (by simpa using hKey) f hF
  · rw [GoMap.lookup_insert_ite] at hEntry
    split_ifs at hEntry with hKey
    · obtain ⟨-, rfl⟩ := Prod.mk.inj (Option.some.inj hEntry)
      exact hFiles f hF
    · exact hOthers key' fingerprint' files' hEntry (by simpa using hKey) f hF

theorem tracked_record
    (hTracked : ∀ key, s.tracker.lookup key = (s.delivered.lookup key).map Prod.fst)
    (key fingerprint : Text) (files : List FileEntry) (key' : Text) :
    (s.record key fingerprint files).tracker.lookup key' =
      ((s.record key fingerprint files).delivered.lookup key').map Prod.fst := by
  unfold Process.record FingerprintTracker.record
  split_ifs
  · rw [GoMap.lookup_erase_ite, GoMap.lookup_erase_ite, hTracked key']
    split_ifs <;> rfl
  · rw [GoMap.lookup_insert_ite, GoMap.lookup_insert_ite, hTracked key']
    split_ifs <;> rfl

theorem Vouched.record (hVouched : s.Vouched) {remote : FileTree} (fingerprint : Text)
    (hPresent : s.EachVouched (some key) fun f => remote.lookup f.path = some f.data)
    (hFiles : HasFiles remote files) (hValid : ∀ f ∈ files, validatePrunePath f.path = .ok ()) :
    Vouched (record { s with remote := remote } key fingerprint files) where
  tracked := tracked_record hVouched.tracked key fingerprint files
  valid := by
    refine EachVouched.record ?_ fingerprint hValid
    intro key' fingerprint' files' hEntry _
    exact hVouched.valid key' fingerprint' files' hEntry (by simp)
  present := EachVouched.record hPresent fingerprint hFiles

theorem Vouched.of_shouldSkip (hVouched : s.Vouched) {fingerprint : Text}
    (hSkip : s.tracker.shouldSkip key fingerprint = true) :
    ∃ files, s.delivered.lookup key = some (Text.trimSpace fingerprint, files) ∧
      HasFiles s.remote files := by
  rw [FingerprintTracker.shouldSkip, Bool.and_eq_true, decide_eq_true_eq, decide_eq_true_eq,
    hVouched.tracked key] at hSkip
  obtain ⟨⟨_, files⟩, hEntry, rfl⟩ := Option.map_eq_some_iff.mp hSkip.2
  exact ⟨files, hEntry, hVouched.present key _ files hEntry (by simp)⟩

end Process

----
-- Delivery
----

variable {s : Process}

/- One export, from a table that is about the remote. -/
theorem exportFilesWithBranch_spec {c : ExportCall} (hVouched : s.Vouched)
    (hKept : KeepsWritten (.exportFiles c))
    (hTruthful : Truthful sha isPrint branch s (.exportFiles c)) :
    (exportFilesWithBranch sha isPrint branch s c).1.Vouched ∧
      ExportDelivers sha isPrint branch s (.exportFiles c) := by
  simp only [ExportDelivers]
  unfold exportFilesWithBranch
  cases hValidate : validateExportFiles c.cfg c.files with
  | error e => exact ⟨hVouched, by simp⟩
  | ok validated =>
    obtain ⟨hSame, hLeaves⟩ := hTruthful validated hValidate
    dsimp only
    split_ifs with hSkip hOk
    · -- The entry passed these files, and they are present.
      refine ⟨hVouched, fun _ => ?_⟩
      obtain ⟨files, hEntry, hFiles⟩ := hVouched.of_shouldSkip hSkip
      exact hasPassed_of_hasFiles hValidate fun f hF => hFiles f (hSame files hEntry f hF)
    all_goals
      rcases c.transport.deliver_cases s.remote (writeExportFiles sha c.transport.base c.cfg
          validated) with hLost | ⟨change, hWrite, hLanded, hTo⟩
    · rw [hLost] at hOk
      cases hOk
    · obtain ⟨hFiles, hKeeps⟩ := ExportCall.landed hKept hValidate hWrite
      have hAcked : c.transport.acked = true := by
        rw [hTo] at hOk
        exact hOk
      have hOthers := hLeaves (by simpa using hSkip) hLanded
      rw [if_pos hAcked] at hOthers
      rw [hTo]
      refine ⟨hVouched.record _ (hVouched.present_of_leaves hOthers (hKeeps s.remote))
        hFiles (validateExportFiles_ok hValidate).2.1, ?_⟩
      exact fun _ => hasPassed_of_hasFiles hValidate hFiles
    · rw [hLost]
      exact ⟨hVouched, by simp⟩
    · obtain ⟨-, hKeeps⟩ := ExportCall.landed hKept hValidate hWrite
      have hAll := hLeaves (by simpa using hSkip) hLanded
      rw [hTo] at hOk ⊢
      rw [if_neg hOk] at hAll
      exact ⟨hVouched.setRemote (hVouched.present_of_leaves hAll (hKeeps s.remote)), by simp⟩

theorem deleteExportWithBranch_vouched {c : DeleteCall} (hVouched : s.Vouched)
    (hTruthful : Truthful sha isPrint branch s (.deleteExport c)) :
    (deleteExportWithBranch sha s c).Vouched := by
  unfold deleteExportWithBranch
  cases hValidate : validateDeletePaths [] c.paths with
  | error e => exact hVouched
  | ok validated =>
    dsimp only
    split_ifs
    · exact hVouched
    · rcases c.transport.deliver_cases s.remote
        (releaseExport sha c.transport.base c.owner c.keepFiles
          validated) with hLost | ⟨change, hOk, hLanded, hTo⟩
      · rw [hLost]
        exact hVouched
      · rw [hTo]
        have hAll := hTruthful validated hValidate hLanded
        exact hVouched.setRemote (hVouched.present_of_leaves hAll
            fun f hPath hFile hLeaves => DeleteCall.landed hOk hPath hFile hLeaves)

/- The table stays about the remote. -/
theorem Process.step_vouched {e : BranchEvent} (hVouched : s.Vouched) (hKept : KeepsWritten e)
    (hTruthful : Truthful sha isPrint branch s e) : (s.step sha isPrint branch e).Vouched := by
  cases e with
  | exportFiles c => exact (exportFilesWithBranch_spec hVouched hKept hTruthful).1
  | deleteExport c => exact deleteExportWithBranch_vouched hVouched hTruthful

end Vouching

def Process.start (remote : FileTree) : Process := ⟨∅, remote, ∅⟩

/-
  In a run whose calls are all truthful, every export that returns nil has delivered what was passed
  to it.
-/
theorem exports_deliver (sha : Digest) (isPrint : Char → Bool) (branch : Text)
    (remote : FileTree) (events : List BranchEvent) (hKept : ∀ e ∈ events, KeepsWritten e)
    (hTruthful : Run.Along (Process.step sha isPrint branch)
        (Truthful sha isPrint branch) (.start remote) events) :
    Run.Along (Process.step sha isPrint branch) (ExportDelivers sha isPrint branch) (.start remote)
      events := by
  have hStart : (Process.start remote).Vouched :=
    ⟨by simp [Process.start], by simp [Process.EachVouched,
      Process.start], by simp [Process.EachVouched, Process.start]⟩
  have hBoth := hTruthful.and_forall hKept
  have hAlong := Run.along_invariant (fun s e hVouched h => Process.step_vouched hVouched h.2 h.1)
    hStart hBoth
  refine hAlong.imp ?_
  rintro s e ⟨hVouched, hTrue, hKeeps⟩
  cases e with
  | exportFiles c => exact (exportFilesWithBranch_spec hVouched hKeeps hTrue).2
  | deleteExport c => trivial

/- The export of an inventory with one file. -/
def rowExport (base : FileTree) : ExportCall where
  endpoint := "remote"
  cfg := { pruneOwner := [], prune := false, pruneKeepPaths := [], pruneClaimPaths := [] }
  files := [{ path := "a.json", data := "row" }]
  checksum := "c1"
  transport := ⟨base, true, true⟩

def rowDelete (base : FileTree) : DeleteCall where
  owner := []
  keepFiles := false
  paths := ["a.json"]
  transport := ⟨base, true, true⟩

def rowTree : FileTree := AList.singleton "a.json" "row"

def asciiPrint (c : Char) : Bool := 0x20 ≤ c.toNat && c.toNat < 0x7f

def exportedOnce : Process :=
  (Process.start ∅).step paddedDigest asciiPrint "main" (.exportFiles (rowExport ∅))

def exportedAndDeleted : Process :=
  exportedOnce.step paddedDigest asciiPrint "main" (.deleteExport (rowDelete rowTree))

def exportedAgain : Process × Bool :=
  exportFilesWithBranch paddedDigest asciiPrint "main" exportedAndDeleted (rowExport ∅)

/- An inventory exported after its deletion is skipped. -/
theorem export_after_delete_is_skipped :
    exportedOnce.remote = rowTree ∧ exportedAndDeleted.remote = ∅ ∧ exportedAgain.2 = true ∧
      ¬ ExportDelivers paddedDigest asciiPrint "main"
        exportedAndDeleted (.exportFiles (rowExport ∅)) := by
  have hReturn : exportedAgain.2 = true := by decide +kernel
  have hGone : exportedAgain.1.remote = ∅ := AList.ext (by decide +kernel)
  refine ⟨AList.ext (by decide +kernel), AList.ext (by decide +kernel), hReturn,
    fun hDelivers => ?_⟩
  obtain ⟨p, -, hFile⟩ := hDelivers hReturn { path := "a.json", data := "row" } List.mem_cons_self
  have hEmpty : (∅ : FileTree).lookup p = some ("row" : Text) := hGone ▸ hFile
  simp at hEmpty

theorem repeated_export_delivers :
    exportedOnce.tracker.shouldSkip "remote\x00main\x00a.json" "c1" = true ∧
      Run.Along (Process.step paddedDigest asciiPrint "main")
        (ExportDelivers paddedDigest asciiPrint "main") (.start ∅)
        [.exportFiles (rowExport ∅), .exportFiles (rowExport rowTree)] := by
  have hSkip : exportedOnce.tracker.shouldSkip "remote\x00main\x00a.json" "c1" = true := by
    decide +kernel
  have hValidate : validateExportFiles (rowExport ∅).cfg
      (rowExport ∅).files = .ok (rowExport ∅).files := by
    decide +kernel
  refine ⟨hSkip, exports_deliver paddedDigest asciiPrint "main" ∅ _ ?_ ⟨?_, ?_, trivial⟩⟩
  · intro e hE
    rcases List.mem_pair.mp hE with rfl | rfl
    · exact fun _ _ => .inr (.inl rfl)
    · exact fun _ _ => .inr (.inl rfl)
  · -- The table is empty at first.
    intro validated hOk
    exact ⟨by simp [Process.start], fun _ _ => by simp [Process.EachVouched, Process.start]⟩
  · intro validated hOk
    obtain rfl := Except.ok.inj (hValidate.symm.trans hOk)
    have hKey : (rowExport rowTree).fingerprint paddedDigest asciiPrint "main" (rowExport ∅).files =
          ("remote\x00main\x00a.json".toList, "c1".toList) := by
      decide +kernel
    have hEntry : exportedOnce.delivered.lookup
        "remote\x00main\x00a.json".toList = some ("c1".toList, (rowExport ∅).files) := by
      decide +kernel
    rw [hKey]
    refine ⟨fun files hFiles => ?_, fun hRun => ?_⟩
    · obtain ⟨-, rfl⟩ := Prod.mk.inj (Option.some.inj (hEntry.symm.trans hFiles))
      exact fun f hF => hF
    · exact nomatch hSkip.symm.trans hRun

end Git
end Sink
end Kollect
