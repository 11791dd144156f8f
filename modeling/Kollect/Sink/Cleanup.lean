import Kollect.Controller.SinkStatus
import Kollect.Errors
import Kollect.Foundation.Run
import Kollect.Sink.CleanupCoverage

/-
  The deletion of what an inventory exported to an object store (`sink/cleanup.go`,
  `sink/s3/delete.go`, `sink/local/delete.go`).

  A store has its objects under keys that are made from the paths: a prefix is joined with the path,
  and the name of a file is cleaned. An attempt lists keys, deletes the objects whose names match a
  candidate path and announces the rest as retained. Which recorded paths it takes for addressed
  depends on the names of what the attempt itself has deleted. An attempt that failed, or one after
  which the finalizer could not be updated, is made again.

  Key theorems include:
    * `announcesTruly_iff`
    * `attempts_leave_the_rest`
-/

namespace Kollect
namespace Sink

open Controller (recordExportPaths)
open Errors

----
-- Outcomes
----

inductive CleanupExportOutcome where
  | cleaned
  | pruned
  | retained
  | retainedByPolicy
  | retainedSharedIdentity
deriving DecidableEq, Repr

inductive DeletionPolicy where
  | retain
  | delete
deriving DecidableEq, Repr

/- What the cleanup of an object store reads. -/
structure CleanupExportRequest where
  sinkName : Text
  sinkSpec : KollectSinkSpec
  deletionPolicy : DeletionPolicy
  objectPath : Text
  generation : Int
  lastExportedPaths : List Text
  exportPathsUnrecorded : Bool
  sharedExportIdentity : Bool

variable (req : CleanupExportRequest)

/- What is decided before the backend is built. -/
def retractionPrecheck : Option CleanupExportOutcome :=
  if req.deletionPolicy ≠ .delete then some .retainedByPolicy
  else if req.sharedExportIdentity then some .retainedSharedIdentity
  else none

def recordedExportPathsUnaddressed (recorded candidates deleted : List Text) : Bool :=
  recorded.any fun p => !(p ∈ candidates) && !(p ∈ deleted)

/- An object store has no tree and no merge request. -/
def retractionOutcome (paths deleted : List Text)
    (staleGenerations : Bool) : CleanupExportOutcome :=
  if staleGenerations || req.exportPathsUnrecorded ||
      recordedExportPathsUnaddressed req.lastExportedPaths paths deleted then
    .retained
  else .cleaned

----
-- Backends
----

/- Where objects are kept: in a bucket, with a prefix or without, or in a directory. -/
inductive ObjectBackend where
  | bucket (keyPrefix : Text)
  | directory (outputDir : Text)
deriving DecidableEq, Repr

/- The full path of a file below the output directory. -/
def safeJoin (outputDir p : Text) : Except GoError Text :=
  if Path.isAbs p then
    .error (errorf ("local sink: path " ++ p ++ (" must be relative, got an absolute path" : Text)))
  else
    let base := Path.clean outputDir
    let full := Path.clean (Path.joinClean [base, p])
    if full ≠ base ∧ ¬ (base ++ ['/']).isPrefixOf full then
      .error (errorf ("local sink: path " ++ p ++ (" escapes output directory" : Text)))
    else .ok full

namespace ObjectBackend

/- The key of the object that an export to a path writes. -/
def exportKey : ObjectBackend → Text → Except GoError Text
  | .bucket keyPrefix, objectPath =>
    let objectPath := Text.trimSpace objectPath
    let objectPath : Text := if objectPath = [] then "inventory/latest.json".toList else objectPath
    .ok (if keyPrefix = [] then objectPath else Path.joinClean [keyPrefix, objectPath])
  | .directory outputDir, p => safeJoin outputDir p

/- What is cut off a key to get the name under the prefix. -/
def keyRoot (keyPrefix : Text) : Text :=
  if keyPrefix = [] then [] else Text.trimEnd keyPrefix ['/'] ++ ['/']

def listPrefix (keyPrefix : Text) (m : KeyMatcher) : Text :=
  if keyPrefix = [] then m.keyPrefix
  else
    Path.joinClean [keyPrefix, Text.trimEnd m.keyPrefix ['/']] ++
      if ['/'].isSuffixOf m.keyPrefix then ['/'] else []

/- An entry of a listed directory as a slash path. -/
def joinDir (dir name : Text) : Text :=
  if dir = ['.'] ∨ dir = [] then name else dir ++ '/' :: name

/- The error of the listing for a matcher, if it cannot be made. -/
def refuses : ObjectBackend → KeyMatcher → Option GoError
  | .bucket _, _ => none
  | .directory outputDir, m =>
    match safeJoin outputDir m.listDir with
    | .error err => some err
    | .ok _ => none

/- The name under which the listing for a matcher has an object, if it has it. -/
def listedAs : ObjectBackend → KeyMatcher → Text → Option Text
  | .bucket keyPrefix, m, key =>
    if (listPrefix keyPrefix m).isPrefixOf key && (keyRoot keyPrefix).isPrefixOf key then
      some (key.drop (keyRoot keyPrefix).length)
    else none
  | .directory outputDir, m, key =>
    match safeJoin outputDir m.listDir with
    | .error _ => none
    | .ok baseDir =>
      if FileTree.parentDir key = baseDir then some (joinDir m.listDir (Path.splitFile key).2)
      else none

/- The name of an object that a matcher finds. -/
def found (b : ObjectBackend) (m : KeyMatcher) (key : Text) : Option Text :=
  (b.listedAs m key).filter m.matchesKey

end ObjectBackend

----
-- Deletion
----

/- The keys of the objects of a store. -/
abbrev Listing := List Text

/- The names of what was deleted, and what is left; an error leaves the later matchers undone. -/
def deleteMatching (b : ObjectBackend) :
    List KeyMatcher → List Text → Listing → Except GoError (List Text) × Listing
  | [], deleted, listing => (.ok deleted, listing)
  | m :: matchers, deleted, listing =>
    match b.refuses m with
    | some err => (.error err, listing)
    | none =>
      deleteMatching b matchers (deleted ++ listing.filterMap (b.found m))
        (listing.filter fun key => (b.found m key).isNone)

/- The matchers of a path trim it, as the S3 backend does. -/
def deleteExport (b : ObjectBackend) (paths : List Text) (listing : Listing) :
    Except GoError (List Text) × Listing :=
  deleteMatching b (paths.flatMap cleanupMatchers) [] listing

/-
  How an attempt goes: the backend cannot be built, a call fails after some objects were deleted, or
  no call to the store fails.
-/
inductive CleanupAttempt where
  | unavailable (err : GoError)
  | interrupted (err : GoError) (keeps : Text → Bool)
  | complete

/- The class of a failed deletion is kept if it is terminal. -/
def classifyCleanupFailure (sinkName : Text) (err : GoError) : GoError :=
  let wrapped : GoError := .wrap (.text ("cleanup delete for " ++ sinkName)) err
  if isTerminal err then wrapped else transient wrapped

/- The route of S3, GCS and local sinks. -/
def runCleanupExport (b : ObjectBackend) (req : CleanupExportRequest) (listing : Listing)
    (attempt : CleanupAttempt) : Except GoError CleanupExportOutcome × Listing :=
  match retractionPrecheck req with
  | some outcome => (.ok outcome, listing)
  | none =>
    let identity := ObjectStore.inventoryFromObjectPath req.objectPath
    let paths := cleanupCandidatePaths req.sinkSpec identity.1 identity.2 req.generation
    let staleGenerations := Text.contains req.sinkSpec.pathTemplate "{generation}" &&
        !ObjectStore.isParquetFormat req.sinkSpec
    let swept := deleteExport b paths listing
    match attempt with
    | .unavailable err =>
      (.error (.wrap (.text ("acquire backend for cleanup of " ++ req.sinkName)) err), listing)
    | .interrupted err keeps =>
      (.error (classifyCleanupFailure req.sinkName err),
        listing.filter fun key => key ∈ swept.2 || keeps key)
    | .complete =>
      match swept.1 with
      | .error err => (.error (classifyCleanupFailure req.sinkName err), swept.2)
      | .ok deleted => (.ok (retractionOutcome req paths deleted staleGenerations), swept.2)

----
-- What Is Deleted
----

section Deletion

variable {b : ObjectBackend} {matchers : List KeyMatcher} {deleted : List Text} {listing : Listing}
variable {key : Text}

theorem ObjectBackend.found_of_refuses {m : KeyMatcher} {err : GoError}
    (hRefuses : b.refuses m = some err) (key : Text) : b.found m key = none := by
  cases b with
  | bucket keyPrefix => cases hRefuses
  | directory outputDir =>
    rw [ObjectBackend.refuses] at hRefuses
    rw [ObjectBackend.found, ObjectBackend.listedAs]
    cases hJoin : safeJoin outputDir m.listDir with
    | error err => rfl
    | ok baseDir =>
      rw [hJoin] at hRefuses
      cases hRefuses

theorem mem_of_mem_deleteMatching (hKey : key ∈ (deleteMatching b matchers deleted listing).2) :
    key ∈ listing := by
  induction matchers generalizing deleted listing with
  | nil => exact hKey
  | cons m matchers ih =>
    rw [deleteMatching] at hKey
    split at hKey
    · exact hKey
    · exact List.mem_of_mem_filter (ih hKey)

/- What no matcher finds stays. -/
theorem mem_deleteMatching_of_notFound (hKey : key ∈ listing)
    (hNone : ∀ m ∈ matchers, b.found m key = none) :
    key ∈ (deleteMatching b matchers deleted listing).2 := by
  induction matchers generalizing deleted listing with
  | nil => exact hKey
  | cons m matchers ih =>
    rw [List.forall_mem_cons] at hNone
    rw [deleteMatching]
    split
    · exact hKey
    · refine ih (List.mem_filter.mpr ⟨hKey, ?_⟩) hNone.2
      rw [hNone.1]
      rfl

/- A store without anything to be found is left as it is. -/
theorem deleteMatching_of_notFound (hNone : ∀ m ∈ matchers, ∀ key ∈ listing, b.found m key = none)
    (hOpen : ∀ m ∈ matchers, b.refuses m = none) :
    deleteMatching b matchers deleted listing = (.ok deleted, listing) := by
  induction matchers with
  | nil => rfl
  | cons m matchers ih =>
    rw [List.forall_mem_cons] at hNone hOpen
    have hNames : listing.filterMap (b.found m) = [] :=
      List.filterMap_eq_nil_iff.mpr fun key hKey => hNone.1 key hKey
    have hLeft : (listing.filter fun key => (b.found m key).isNone) = listing :=
      List.filter_eq_self.mpr fun key hKey => by rw [hNone.1 key hKey]; rfl
    rw [deleteMatching, hOpen.1]
    dsimp only
    rw [hNames, hLeft, List.append_nil]
    exact ih hNone.2 hOpen.2

/- A single matcher finds nothing in what it leaves. -/
theorem notFound_deleteMatching {m : KeyMatcher}
    (hKey : key ∈ (deleteMatching b [m] deleted listing).2) : b.found m key = none := by
  rw [deleteMatching] at hKey
  cases hRefuses : b.refuses m with
  | some err => exact ObjectBackend.found_of_refuses hRefuses key
  | none =>
    rw [hRefuses] at hKey
    exact Option.isNone_iff_eq_none.mp (List.mem_filter.mp hKey).2

end Deletion

----
-- Recorded Paths
----

theorem recordExportPaths_ne_nil {written : List Text} (hSome : written ≠ [])
    (previous : List Text) :
    recordExportPaths written previous ≠ [] := by
  unfold recordExportPaths
  rw [if_neg hSome]
  intro hNil
  rcases List.take_eq_nil_iff.mp hNil with hZero | hNone
  · cases hZero
  · rcases List.exists_mem_of_ne_nil _ hSome with ⟨p, hP⟩
    have hMem : p ∈ Text.sort written.dedup := by rwa [Text.mem_sort, List.mem_dedup]
    rw [hNone] at hMem
    cases hMem

/- The objects an export of some parts writes. -/
def Inventory.exportedPaths (inv : Inventory) (spec : KollectSinkSpec)
    (generation : Int) (total : Nat) : List Text :=
  (List.range total).map fun index => inv.writtenPath spec generation (index + 1) total

/-
  The request of an inventory that is deleted, after an export of some parts at a generation that it
  may no longer have.
-/
def Inventory.cleanupRequest (inv : Inventory) (sinkName : Text) (spec : KollectSinkSpec)
    (exported current : Int) (total : Nat) (previous : List Text) : CleanupExportRequest :=
  let recorded := recordExportPaths (inv.exportedPaths spec exported total) previous
  { sinkName := sinkName
    sinkSpec := spec
    deletionPolicy := .delete
    objectPath := inv.objectPath
    generation := current
    lastExportedPaths := recorded
    exportPathsUnrecorded := recorded.isEmpty
    sharedExportIdentity := false }

----
-- Repeated Attempts
----

/- An attempt as a step of the store. -/
def attemptStep (b : ObjectBackend) (req : CleanupExportRequest) (listing : Listing)
    (attempt : CleanupAttempt) : Listing :=
  (runCleanupExport b req listing attempt).2

/-
  After any attempts, one that reports the export as retained has left an object of it in the store.
-/
def AnnouncesTruly (b : ObjectBackend) (req : CleanupExportRequest) (written : List Text)
    (listing : Listing) : Prop :=
  ∀ attempts attempt,
    let before := Run.exec (attemptStep b req) listing attempts
    let result := runCleanupExport b req before attempt
    result.1 = .ok .retained → ∃ key ∈ written, key ∈ result.2

def CleanupExportRequest.candidates : List Text :=
  let identity := ObjectStore.inventoryFromObjectPath req.objectPath
  cleanupCandidatePaths req.sinkSpec identity.1 identity.2 req.generation

def CleanupExportRequest.matchers : List KeyMatcher :=
  req.candidates.flatMap cleanupMatchers

/- An object store has one path, and that has at most one matcher. -/
theorem CleanupExportRequest.matchers_cases {req : CleanupExportRequest}
    (hStore : req.sinkSpec.type = .other) : req.matchers = [] ∨ ∃ m, req.matchers = [m] := by
  unfold CleanupExportRequest.matchers CleanupExportRequest.candidates cleanupCandidatePaths
  dsimp only
  rw [if_pos hStore, List.flatMap_singleton]
  generalize ObjectStore.objectPath req.sinkSpec _ _ req.generation = p
  by_cases hEmpty : Text.trimStart (Text.trimSpace p) ['.', '/'] = []
  · left
    unfold cleanupMatchers
    exact if_pos hEmpty
  · rcases cleanupMatchers_single rfl hEmpty with ⟨m, hOne, -⟩
    exact .inr ⟨m, hOne⟩

/- A request that deletes and can tell what it has to. -/
structure CleanupExportRequest.Retracts (req : CleanupExportRequest) : Prop where
  policy : req.deletionPolicy = .delete
  unshared : req.sharedExportIdentity = false
  undated : Text.contains req.sinkSpec.pathTemplate "{generation}" = false
  recorded : req.exportPathsUnrecorded = false

section Attempts

variable {b : ObjectBackend} {req : CleanupExportRequest} {written : List Text} {listing : Listing}

theorem CleanupExportRequest.Retracts.precheck (hReq : req.Retracts) :
    retractionPrecheck req = none := by
  unfold retractionPrecheck
  rw [if_neg (not_not.mpr hReq.policy), hReq.unshared]
  rfl

theorem runCleanupExport_complete (hReq : req.Retracts) (listing : Listing) :
    runCleanupExport b req listing .complete =
      match (deleteMatching b req.matchers [] listing).1 with
      | .error err => (.error (classifyCleanupFailure req.sinkName err),
          (deleteMatching b req.matchers [] listing).2)
      | .ok deleted =>
        (.ok (if recordedExportPathsUnaddressed req.lastExportedPaths req.candidates deleted = true
          then .retained else .cleaned), (deleteMatching b req.matchers [] listing).2) := by
  unfold runCleanupExport retractionOutcome
  rw [hReq.precheck, hReq.undated, hReq.recorded]
  rfl

theorem recordedExportPathsUnaddressed_iff {recorded candidates deleted : List Text} :
    recordedExportPathsUnaddressed recorded candidates deleted = true ↔
      ∃ p ∈ recorded, p ∉ candidates ∧ p ∉ deleted := by
  unfold recordedExportPathsUnaddressed
  simp only [List.any_eq_true, Bool.and_eq_true, Bool.not_eq_true', decide_eq_false_iff_not]

/- Only an attempt that succeeds announces anything. -/
theorem unaddressed_of_retained (hReq : req.Retracts) {attempt : CleanupAttempt}
    (hRetained : (runCleanupExport b req listing attempt).1 = .ok .retained) :
    ∃ p ∈ req.lastExportedPaths, p ∉ req.candidates := by
  cases attempt with
  | unavailable | interrupted =>
    unfold runCleanupExport at hRetained
    rw [hReq.precheck] at hRetained
    cases hRetained
  | complete =>
    rw [runCleanupExport_complete hReq] at hRetained
    split at hRetained
    · cases hRetained
    · rename_i deleted hDeleted
      by_cases hMissed : recordedExportPathsUnaddressed
          req.lastExportedPaths req.candidates deleted = true
      · rcases recordedExportPathsUnaddressed_iff.mp hMissed with ⟨p, hP, hCandidate, -⟩
        exact ⟨p, hP, hCandidate⟩
      · rw [if_neg hMissed] at hRetained
        cases hRetained

theorem attemptStep_complete (hDue : retractionPrecheck req = none) :
    attemptStep b req listing .complete = (deleteMatching b req.matchers [] listing).2 := by
  unfold attemptStep runCleanupExport
  rw [hDue]
  dsimp only
  unfold deleteExport CleanupExportRequest.matchers CleanupExportRequest.candidates
  split
  · rfl
  · rfl

theorem mem_attemptStep {key : Text} (hApart : ∀ m ∈ req.matchers, b.found m key = none)
    (attempt : CleanupAttempt) (hKey : key ∈ listing) :
    key ∈ attemptStep b req listing attempt := by
  have hLeft : key ∈ (deleteMatching b req.matchers [] listing).2 :=
    mem_deleteMatching_of_notFound hKey hApart
  cases hPre : retractionPrecheck req with
  | some outcome =>
    unfold attemptStep runCleanupExport
    rw [hPre]
    exact hKey
  | none =>
    cases attempt with
    | complete =>
      rw [attemptStep_complete hPre]
      exact hLeft
    | unavailable err =>
      unfold attemptStep runCleanupExport
      rw [hPre]
      exact hKey
    | interrupted err keeps =>
      unfold attemptStep runCleanupExport
      rw [hPre]
      refine List.mem_filter.mpr ⟨hKey, ?_⟩
      rw [Bool.or_eq_true]
      exact .inl (decide_eq_true hLeft)

/-
  Attempts announce truly exactly if an object of the export is out of reach or all recorded paths
  are candidates.
-/
theorem announcesTruly_iff (hReq : req.Retracts) (hStore : req.sinkSpec.type = .other)
    (hSome : written ≠ []) (hPresent : ∀ key ∈ written, key ∈ listing) :
    AnnouncesTruly b req written listing ↔
      (∃ key ∈ written, ∀ m ∈ req.matchers, b.found m key = none) ∨
      ∀ p ∈ req.lastExportedPaths, p ∈ req.candidates := by
  constructor
  · intro hTruly
    by_contra hNot
    rw [not_or] at hNot
    rcases hNot with ⟨hReached, hOther⟩
    rcases List.exists_mem_of_ne_nil _ hSome with ⟨first, hFirst⟩
    obtain ⟨m, hMatchers⟩ : ∃ m, req.matchers = [m] := by
      rcases CleanupExportRequest.matchers_cases hStore with hNone | hOne
      · exact absurd ⟨first, hFirst, by rw [hNone]; exact List.forall_mem_nil _⟩ hReached
      · exact hOne
    simp only [hMatchers, List.forall_mem_singleton] at hReached
    have hOpen : b.refuses m = none := by
      by_contra hRefuses
      rcases Option.ne_none_iff_exists'.mp hRefuses with ⟨err, hErr⟩
      exact hReached ⟨first, hFirst, ObjectBackend.found_of_refuses hErr first⟩
    have hGone : ∀ key ∈ written, key ∉ (deleteMatching b [m] [] listing).2 :=
      fun key hKey hMem => hReached ⟨key, hKey, notFound_deleteMatching hMem⟩
    -- the second of two attempts finds nothing to delete
    have hSecond : deleteMatching b [m] [] (deleteMatching b [m] [] listing).2 =
        (.ok [], (deleteMatching b [m] [] listing).2) := by
      apply deleteMatching_of_notFound
      · exact List.forall_mem_singleton.mpr fun key hKey => notFound_deleteMatching hKey
      · exact List.forall_mem_singleton.mpr hOpen
    have hTwice := hTruly [.complete] .complete
    have hBefore : Run.exec (attemptStep b req) listing [.complete] =
        (deleteMatching b [m] [] listing).2 := by
      rw [← hMatchers]
      exact attemptStep_complete hReq.precheck
    have hMissed : recordedExportPathsUnaddressed
        req.lastExportedPaths req.candidates [] = true := by
      rw [recordedExportPathsUnaddressed_iff]
      simp only [not_forall] at hOther
      rcases hOther with ⟨p, hP, hCandidate⟩
      exact ⟨p, hP, hCandidate, List.not_mem_nil⟩
    dsimp only at hTwice
    rw [hBefore, runCleanupExport_complete hReq, hMatchers, hSecond] at hTwice
    dsimp only at hTwice
    rw [if_pos hMissed] at hTwice
    rcases hTwice rfl with ⟨key, hKey, hMem⟩
    exact hGone key hKey hMem
  · rintro (⟨key, hKey, hApart⟩ | hAll) attempts attempt before result hRetained
    · refine ⟨key, hKey, ?_⟩
      have hBefore : key ∈ Run.exec (attemptStep b req) listing attempts :=
        Run.exec_preserves (fun s e hMem => mem_attemptStep hApart e hMem)
          (hPresent key hKey) attempts
      exact mem_attemptStep hApart attempt hBefore
    · rcases unaddressed_of_retained hReq hRetained with ⟨p, hP, hCandidate⟩
      exact absurd (hAll p hP) hCandidate

theorem mem_of_mem_attemptStep {key : Text} {attempt : CleanupAttempt}
    (hKey : key ∈ attemptStep b req listing attempt) : key ∈ listing := by
  cases hPre : retractionPrecheck req with
  | some outcome =>
    unfold attemptStep runCleanupExport at hKey
    rwa [hPre] at hKey
  | none =>
    cases attempt with
    | complete =>
      rw [attemptStep_complete hPre] at hKey
      exact mem_of_mem_deleteMatching hKey
    | unavailable err =>
      unfold attemptStep runCleanupExport at hKey
      rw [hPre] at hKey
      exact hKey
    | interrupted err keeps =>
      unfold attemptStep runCleanupExport at hKey
      rw [hPre] at hKey
      exact (List.mem_filter.mp hKey).1

theorem mem_exec_attemptStep {key : Text} {attempts : List CleanupAttempt}
    (hKey : key ∈ Run.exec (attemptStep b req) listing attempts) : key ∈ listing := by
  induction attempts generalizing listing with
  | nil => exact hKey
  | cons attempt attempts ih => exact mem_of_mem_attemptStep (ih hKey)

/-
  However many attempts fail or stop halfway before or after it, one complete attempt is enough: the
  store is left with exactly the objects that no candidate finds.
-/
theorem attempts_leave_the_rest (b : ObjectBackend) (hStore : req.sinkSpec.type = .other)
    (hDue : retractionPrecheck req = none) {attempts : List CleanupAttempt}
    (hSome : .complete ∈ attempts) (listing : Listing) (key : Text) :
    key ∈ Run.exec (attemptStep b req) listing attempts ↔ key ∈ listing ∧
      ∀ m ∈ req.candidates.flatMap cleanupMatchers, b.found m key = none := by
  constructor
  · intro hKey
    refine ⟨mem_exec_attemptStep hKey, ?_⟩
    rcases List.append_of_mem hSome with ⟨before, after, rfl⟩
    rw [Run.exec_append, Run.exec_cons] at hKey
    have hSwept := mem_exec_attemptStep hKey
    rw [attemptStep_complete hDue] at hSwept
    have hCases := CleanupExportRequest.matchers_cases hStore
    unfold CleanupExportRequest.matchers at hCases hSwept
    rcases hCases with hNone | ⟨m, hOne⟩
    · rw [hNone]
      exact List.forall_mem_nil _
    · rw [hOne] at hSwept ⊢
      rw [List.forall_mem_singleton]
      exact notFound_deleteMatching hSwept
  · rintro ⟨hKey, hApart⟩
    exact Run.exec_preserves (fun s e hMem => mem_attemptStep hApart e hMem) hKey attempts

end Attempts

/- A bucket that cannot be reached at first; its sink has a prefix. -/
theorem second_attempt_deletes :
    let left := Run.exec
      (attemptStep (.bucket "p") (plainInventory.cleanupRequest "store" (storeWith []) 1 1 1 []))
      ["p/inventory/a/b.json", "p/inventory/a/c.json", "inventory/a/b.json"]
      [.unavailable (errorf "refused"), .complete]
    ("p/inventory/a/b.json" : Text) ∉ left ∧ ("p/inventory/a/c.json" : Text) ∈ left ∧
      ("inventory/a/b.json" : Text) ∈ left := by
  intro left
  have hLeft : ∀ key, key ∈ left ↔ _ := attempts_leave_the_rest (.bucket "p") rfl
    (by decide +kernel) (List.mem_cons_of_mem _ List.mem_cons_self) _
  rw [hLeft, hLeft, hLeft]
  decide +kernel

----
-- Announcements About An Export
----

section Export

variable {inv : Inventory} {spec : KollectSinkSpec} {exported current : Int} {total : Nat}
variable {listing : Listing}

theorem exportedPaths_ne_nil (hTotal : 0 < total) : inv.exportedPaths spec exported total ≠ [] := by
  unfold Inventory.exportedPaths
  rw [ne_eq, List.map_eq_nil_iff, List.range_eq_nil]
  omega

theorem retracts_cleanupRequest (hUndated : Text.contains spec.pathTemplate "{generation}" = false)
    (hTotal : 0 < total) (sinkName : Text) (previous : List Text) :
    (inv.cleanupRequest sinkName spec exported current total previous).Retracts := by
  refine ⟨rfl, rfl, hUndated, ?_⟩
  exact List.isEmpty_eq_false_iff.mpr
    (recordExportPaths_ne_nil (exportedPaths_ne_nil hTotal) previous)

theorem candidates_cleanupRequest
    (hStore : spec.type = .other) (sinkName : Text) (previous : List Text) :
    (inv.cleanupRequest sinkName spec exported current total previous).candidates =
      [ObjectStore.objectPath spec inv.pathNamespace inv.name current] := by
  unfold CleanupExportRequest.candidates Inventory.cleanupRequest cleanupCandidatePaths
  rw [inv.fromObjectPath_whole, if_pos hStore]

/-
  All attempts to delete an export announce truly what they leave behind exactly if a part of the
  export is out of their reach, or the only path recorded is the one the inventory has now.
-/
theorem cleanup_announces_truly_iff (b : ObjectBackend) (hStore : spec.type = .other)
    (hUndated : Text.contains spec.pathTemplate "{generation}" = false) (hTotal : 0 < total)
    (sinkName : Text) (previous : List Text) {written : List Text}
    (hWritten : (inv.exportedPaths spec exported total).mapM b.exportKey = .ok written)
    (hPresent : ∀ key ∈ written, key ∈ listing) : AnnouncesTruly b
        (inv.cleanupRequest sinkName spec exported current total previous) written listing ↔
      (∃ key ∈ written, ∀ m ∈ inv.cleanupKeys spec current, b.found m key = none) ∨
      ∀ p ∈ recordExportPaths (inv.exportedPaths spec exported total) previous,
        p = ObjectStore.objectPath spec inv.pathNamespace inv.name current := by
  have hKeys : (inv.cleanupRequest sinkName spec exported current
      total previous).matchers = inv.cleanupKeys spec current := by
    unfold CleanupExportRequest.matchers
    rw [candidates_cleanupRequest hStore, List.flatMap_singleton, inv.cleanupKeys_eq hStore]
  have hSome : written ≠ [] := by
    rintro rfl
    rw [Fallible.mapM_eq_ok, List.map_nil, List.map_eq_nil_iff] at hWritten
    exact exportedPaths_ne_nil hTotal hWritten
  rw [announcesTruly_iff (retracts_cleanupRequest hUndated hTotal sinkName previous)
    hStore hSome hPresent, hKeys, candidates_cleanupRequest hStore]
  simp only [List.mem_singleton]
  rfl

end Export

/- One file of a directory, and one of another inventory beside it. -/
theorem single_object_is_announced_truly : AnnouncesTruly (.directory "/out")
      (plainInventory.cleanupRequest "store" (storeWith "./{namespace}/{name}.json") 1 2 1 [])
      ["/out/a/b.json"] ["/out/a/b.json", "/out/a/c.json"] := by
  refine (cleanup_announces_truly_iff (.directory "/out") rfl (by decide +kernel)
    Nat.one_pos "store" [] ?_ ?_).mpr (.inr ?_)
  · rfl
  · decide +kernel
  · decide +kernel

/-
  Two parts are deleted by the first attempt. The second one finds nothing and announces them as
  retained.
-/
theorem second_attempt_announces_deleted_parts :
    let req := plainInventory.cleanupRequest "store" (storeWith []) 1 1 2 []
    let written := plainInventory.exportedPaths (storeWith []) 1 2
    let first := runCleanupExport (.bucket []) req written .complete
    let second := runCleanupExport (.bucket []) req first.2 .complete
    (written.mapM (ObjectBackend.bucket []).exportKey).toOption = some written ∧
      first.1.toOption = some .cleaned ∧ first.2 = [] ∧
      second.1.toOption = some .retained ∧ second.2 = [] := by
  decide +kernel

end Sink
end Kollect
