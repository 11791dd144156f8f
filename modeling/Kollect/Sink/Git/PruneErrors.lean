import Kollect.Errors
import Kollect.Sink.CircuitBreaker
import Kollect.Sink.Git.Prune

/-
  Which rejections of an owned export the circuit breaker of the sink counts
  (`sink/git/prune_owned.go`, `sink/circuit_breaker.go`).

  The kept paths are checked in the order of a map, that is in any order. A rejection that is about
  the paths of the exporting inventory should be inventory-scoped, which the breaker leaves out; one
  about an invalid path is not.

  Key theorems include:
    * `checkSingleClaims_error`
    * `rejections_are_scoped_iff`
-/

namespace Kollect

namespace Sink

namespace Git

open Errors (GoError isInventoryScoped)

----
-- Errors
----

variable (text : PruneError → Text) (err : PruneError)

/- The error as `invalidPrune` or `ownershipConflict` made it. -/
def PruneError.goError : GoError :=
  match err.errorClass with
  | .terminal => Errors.terminal (Errors.errorf (text err))
  | .inventoryScoped => Errors.inventoryScoped (Errors.errorf (text err))
  | .unclassified => Errors.errorf (text err)

/- What the breaker is told. -/
def PruneError.exportResult : ExportResult :=
  .failed (isInventoryScoped (err.goError text))

/- Only errors of one class are left out by the breaker. -/
theorem isInventoryScoped_goError :
    isInventoryScoped (err.goError text) = true ↔ err.errorClass = .inventoryScoped := by
  have hPlain : isInventoryScoped (Errors.errorf (text err)) = false := rfl
  unfold PruneError.goError
  cases err.errorClass with
  | terminal =>
    have hTerminal : isInventoryScoped (Errors.terminal (Errors.errorf (text err))) = false := rfl
    simp [hTerminal]
  | inventoryScoped => simp [Errors.isInventoryScoped_inventoryScoped]
  | unclassified => simp [hPlain]

theorem outcome_exportResult :
    (err.exportResult text).outcome = .excluded ↔ isInventoryScoped (err.goError text) = true := by
  unfold PruneError.exportResult
  cases isInventoryScoped (err.goError text) with
  | false | true => simp [ExportResult.outcome]

variable {p : Text} {err : PruneError}

theorem validatePrunePath_error (hError : validatePrunePath p = .error err) :
    err.errorClass = .terminal := by
  unfold validatePrunePath at hError
  split_ifs at hError
  · cases hError
    rfl
  · cases hError
    rfl

variable {owners : GoMap Text Text}

theorem checkForeignClaim_error {cfg : PruneConfig}
    (hError : checkForeignClaim cfg owners p = .error err) : err.errorClass = .inventoryScoped := by
  unfold checkForeignClaim at hError
  split at hError
  · cases hError
  · split_ifs at hError
    cases hError
    rfl

theorem requireKept_error {keep : List Text} (hError : requireKept keep p = .error err) :
    err.errorClass = .inventoryScoped := by
  unfold requireKept at hError
  split_ifs at hError
  cases hError
  rfl

----
-- Any Order
----

/- `validateOwnedPrunePaths`, with the order of the map. -/
def validateInOrder (t : FileTree) (cfg : PruneConfig) (written : List Text)
    (owners : GoMap Text Text) (current : List Text) : Except PruneError (List Text) := do
  if maxPrunePaths < (pruneKeepSet cfg written).length then .error .tooManyPaths
  else do
    Fallible.checkAll (requireKept current) written
    Fallible.checkAll (checkKeptPath t cfg owners) current
    Fallible.checkAll (checkClaimPath cfg owners) cfg.pruneClaimPaths
    pure current

def prepareInOrder (sha : Digest) (t : FileTree) (cfg : PruneConfig) (written current : List Text) :
    Except PruneError (Option OwnedPrunePlan) :=
  if cfg.pruneOwner = [] then .ok none
  else if maxOwnerBytes < Text.byteLen cfg.pruneOwner then .error .ownerTooLong
  else do
    let loaded ← loadPruneRecords sha t
    let current ← validateInOrder t cfg written loaded.owners current
    if cfg.prune then do
      let plan ← planOwnedPrune sha t cfg.pruneOwner loaded current
      pure (some plan)
    else pure none

theorem prepareInOrder_dedup
    (sha : Digest) (t : FileTree) (cfg : PruneConfig) (written : List Text) :
    prepareInOrder sha t cfg written (pruneKeepSet cfg written).dedup =
      prepareOwnedPrune sha t cfg written :=
  rfl

/- In every order, a rejection is left out by the breaker. -/
def RejectionsScoped (sha : Digest) (text : PruneError → Text) (t : FileTree)
    (cfg : PruneConfig) (written : List Text) : Prop :=
  ∀ current err, current.Perm (pruneKeepSet cfg written).dedup →
    prepareInOrder sha t cfg written current = .error err →
      isInventoryScoped (err.goError text) = true ∧ (err.exportResult text).outcome = .excluded

----
-- Loaded Records
----

/- Every record lists its paths once, and they are entered. -/
structure Entered (loaded : PruneRecords) : Prop where
  nodup : ∀ o record, loaded.records.lookup o = some record → record.paths.Nodup
  owner : ∀ o record, loaded.records.lookup o = some record →
    ∀ p ∈ record.paths, loaded.owners.lookup p = some o

variable {record : PruneRecord} {loaded : PruneRecords}

theorem Entered.disjoint (hLoaded : Entered loaded) {o o' : Text} {record' : PruneRecord}
    (hRecord : loaded.records.lookup o = some record)
    (hRecord' : loaded.records.lookup o' = some record') (hMem : p ∈ record.paths)
    (hMem' : p ∈ record'.paths) : o = o' := by
  have hOwner := hLoaded.owner o record hRecord p hMem
  have hOwner' := hLoaded.owner o' record' hRecord' p hMem'
  exact Option.some.inj (hOwner.symm.trans hOwner')

theorem entered_loadEntries {sha : Digest} {t : FileTree} {names : List Text} {start : PruneRecords}
    (hStart : Entered start) (hLoad : loadEntries sha t start names = .ok loaded) :
    Entered loaded := by
  induction names generalizing start with
  | nil =>
    cases hLoad
    exact hStart
  | cons name names ih =>
    rw [loadEntries] at hLoad
    rcases Fallible.bind_eq_ok.mp hLoad with ⟨⟨record, size⟩, -, hRest⟩
    rcases Fallible.bind_eq_ok.mp hRest with ⟨owners, hClaim, hMore⟩
    apply ih _ hMore
    obtain ⟨hFresh, hLookup⟩ := enterPaths_spec hClaim
    constructor
    · intro o other hOther
      rw [GoMap.lookup_insert_ite] at hOther
      split_ifs at hOther with hO
      · rw [← Option.some.inj hOther]
        exact hFresh.2.1
      · exact hStart.nodup o other hOther
    · intro o other hOther p hMem
      rw [GoMap.lookup_insert_ite] at hOther
      rw [hLookup]
      split_ifs at hOther with hO
      · rw [← Option.some.inj hOther] at hMem
        rw [if_pos hMem, hO]
      · have hOld := hStart.owner o other hOther p hMem
        have hNot : p ∉ record.paths := by
          intro hIn
          rw [hFresh.2.2 p hIn] at hOld
          cases hOld
        rw [if_neg hNot]
        exact hOld

theorem entered_loadPruneRecords {sha : Digest} {t : FileTree}
    (hLoad : loadPruneRecords sha t = .ok loaded) : Entered loaded := by
  have hEmpty : Entered ⟨∅, ∅, 0⟩ := by
    constructor
    · intro o record hRecord
      cases hRecord
    · intro o record hRecord
      cases hRecord
  unfold loadPruneRecords at hLoad
  split at hLoad
  · rw [← Except.ok.inj hLoad]
    exact hEmpty
  · exact nomatch hLoad
  · dsimp only at hLoad
    split_ifs at hLoad
    exact entered_loadEntries hEmpty hLoad

----
-- The Next Records
----

theorem enterPaths_error {taken : Text → Text → PruneError} {owner : Text} {paths : List Text}
    (hNodup : paths.Nodup)
    (hError : enterPaths (fun _ => .ok ()) taken owner owners paths = .error err) :
    ∃ p ∈ paths, ∃ prev, owners.lookup p = some prev ∧ err = taken p prev := by
  induction paths generalizing owners with
  | nil => cases hError
  | cons p paths ih =>
    rw [List.nodup_cons] at hNodup
    rw [enterPaths] at hError
    cases hLookup : owners.lookup p with
    | some prev =>
      simp only [hLookup] at hError
      cases hError
      exact ⟨p, List.mem_cons_self, prev, hLookup, rfl⟩
    | none =>
      simp only [hLookup] at hError
      rcases ih hNodup.2 hError with ⟨q, hMem, prev, hPrev, hErr⟩
      have hNe : q ≠ p := fun h => hNodup.1 (h ▸ hMem)
      rw [AList.lookup_insert_ne hNe] at hPrev
      exact ⟨q, List.mem_cons_of_mem p hMem, prev, hPrev, hErr⟩

/- Two records share a path only if one is the exporter's. -/
structure Apart (records : GoMap Text PruneRecord) (exporter : Text) : Prop where
  nodup : ∀ o record, records.lookup o = some record → record.paths.Nodup
  shared : ∀ o record o' record' p, records.lookup o = some record →
    records.lookup o' = some record' →
    p ∈ record.paths → p ∈ record'.paths → o = o' ∨ o = exporter ∨ o' = exporter

variable {self : Text}

theorem apart_insert (hLoaded : Entered loaded) (hNodup : record.paths.Nodup) :
    Apart (loaded.records.insert self record) self := by
  constructor
  · intro o other hOther
    rw [GoMap.lookup_insert_ite] at hOther
    split_ifs at hOther
    · rw [← Option.some.inj hOther]
      exact hNodup
    · exact hLoaded.nodup o other hOther
  · intro o other o' other' p hOther hOther' hMem hMem'
    rw [GoMap.lookup_insert_ite] at hOther hOther'
    split_ifs at hOther with hO
    · exact Or.inr (Or.inl hO)
    · split_ifs at hOther' with hO'
      · exact Or.inr (Or.inr hO')
      · exact Or.inl (hLoaded.disjoint hOther hOther' hMem hMem')

theorem doubleClaim_class {owner prev : Text} (hNe : prev ≠ owner)
    (hSelf : owner = self ∨ prev = self) :
    (doubleClaim self owner p prev).errorClass = .inventoryScoped := by
  unfold doubleClaim
  by_cases hOwner : owner = self
  · rw [if_pos ⟨hNe, hOwner⟩]
    rfl
  · have hPrev := hSelf.resolve_left hOwner
    rw [if_neg (fun h => hOwner h.2), if_pos ⟨hNe, hPrev⟩]
    rfl

/- What is claimed so far stands in a record visited before. -/
def ClaimedBefore (records : GoMap Text PruneRecord)
    (claimedBy : GoMap Text Text) (owners : List Text) : Prop :=
  ∀ p o, claimedBy.lookup p = some o →
    o ∉ owners ∧ ∃ record, records.lookup o = some record ∧ p ∈ record.paths

theorem checkClaimsOf_error {records : GoMap Text PruneRecord} (hApart : Apart records self)
    {claimedBy : GoMap Text Text} {owners : List Text} (hNodup : owners.Nodup)
    (hBefore : ClaimedBefore records claimedBy owners)
    (hError : checkClaimsOf self records claimedBy owners = .error err) :
    err.errorClass = .inventoryScoped := by
  induction owners generalizing claimedBy with
  | nil => cases hError
  | cons owner owners ih =>
    rw [List.nodup_cons] at hNodup
    rw [checkClaimsOf] at hError
    cases hRecord : records.lookup owner with
    | none =>
      simp only [hRecord] at hError
      apply ih hNodup.2 _ hError
      intro p o hClaimed
      rcases hBefore p o hClaimed with ⟨hNot, hIn⟩
      exact ⟨fun h => hNot (List.mem_cons_of_mem _ h), hIn⟩
    | some record =>
      simp only [hRecord] at hError
      rcases Fallible.bind_eq_error.mp hError with hEnter | ⟨entered, hEnter, hRest⟩
      · rcases enterPaths_error
          (hApart.nodup owner record hRecord) hEnter with
          ⟨p, hMem, prev, hPrev, rfl⟩
        rcases hBefore p prev hPrev with ⟨hNot, other, hOther, hMem'⟩
        have hNe : prev ≠ owner := by
          rintro rfl
          exact hNot List.mem_cons_self
        apply doubleClaim_class hNe
        rcases hApart.shared owner record prev other p hRecord hOther hMem hMem' with h | h | h
        · exact absurd h.symm hNe
        · exact Or.inl h
        · exact Or.inr h
      · apply ih hNodup.2 _ hRest
        intro p o hClaimed
        rw [(enterPaths_spec hEnter).2] at hClaimed
        split_ifs at hClaimed with hMem
        · cases hClaimed
          exact ⟨hNodup.1, record, hRecord, hMem⟩
        · rcases hBefore p o hClaimed with ⟨hNot, hIn⟩
          exact ⟨fun h => hNot (List.mem_cons_of_mem _ h), hIn⟩

/- Every refusal of a double claim is about own paths. -/
theorem checkSingleClaims_error (hLoaded : Entered loaded) (hNodup : record.paths.Nodup)
    (hError : checkSingleClaims (loaded.records.insert self record) self = .error err) :
    err.errorClass = .inventoryScoped := by
  apply checkClaimsOf_error (apart_insert hLoaded hNodup) _ _ hError
  · rw [Text.nodup_sort]
    exact AList.keys_nodup _
  · intro p o hClaimed
    cases hClaimed

----
-- Rejections
----

/- The record the export would leave. -/
def nextRecord (cfg : PruneConfig) (written : List Text) : PruneRecord :=
  { version := 1
    owner := cfg.pruneOwner
    paths := Text.sort (pruneKeepSet cfg written).dedup }

/-
  The records load, files and directories are where they should be, and the next records are within
  the bounds.
-/
structure Prepared (sha : Digest) (t : FileTree) (cfg : PruneConfig)
    (written : List Text) (loaded : PruneRecords) : Prop where
  loads : loadPruneRecords sha t = .ok loaded
  kept : ∀ p ∈ pruneKeepSet cfg written, checkPruneFile t p = .ok ()
  recorded : ∀ p ∈ loaded.pathsOf cfg.pruneOwner, checkPruneFile t p = .ok ()
  owners :
    (loaded.records.insert cfg.pruneOwner (nextRecord cfg written)).keys.length ≤ maxPruneOwners
  bytes :
    loaded.total - sizeAt t (pruneRecordPath sha cfg.pruneOwner) +
      Text.byteLen (encodeRecord (nextRecord cfg written)) ≤ maxPruneMetadataBytes

/- Another owner's record lists the path. -/
def Foreign (cfg : PruneConfig) (owners : GoMap Text Text) (p : Text) : Prop :=
  checkForeignClaim cfg owners p ≠ .ok ()

/- The first claim path that is refused is a valid path. -/
def ValidFirst (cfg : PruneConfig) (owners : GoMap Text Text) : Prop :=
  ∀ front p rest, cfg.pruneClaimPaths = front ++ p :: rest →
    (∀ q ∈ front, checkClaimPath cfg owners q = .ok ()) → validatePrunePath p = .ok ()

/-
  The export is refused before its paths are looked at, or all kept paths are valid and so is the
  first refused claim.
-/
def ScopedWhen (cfg : PruneConfig) (written : List Text) (owners : GoMap Text Text) : Prop :=
  cfg.pruneOwner = [] ∨ maxOwnerBytes < Text.byteLen cfg.pruneOwner ∨
    maxPrunePaths < (pruneKeepSet cfg written).length ∨
    (∃ p ∈ written, p ∉ pruneKeepSet cfg written) ∨ ((∀ p ∈ pruneKeepSet cfg written,
        validatePrunePath p = .ok ()) ∧
      ((cfg.prune = false ∧ ∃ p ∈ pruneKeepSet cfg written, Foreign cfg owners p) ∨
        ValidFirst cfg owners))

section Rejections

variable {sha : Digest} {t : FileTree} {cfg : PruneConfig} {written current : List Text}
variable {loaded : PruneRecords} {err : PruneError}

variable (hPrepared : Prepared sha t cfg written loaded)

include hPrepared in
theorem planOwnedPrune_error (hOrder : current.Perm (pruneKeepSet cfg written).dedup)
    (hError : planOwnedPrune sha t cfg.pruneOwner loaded current = .error err) :
    err.errorClass = .inventoryScoped := by
  have hSorted : Text.sort current = Text.sort (pruneKeepSet cfg written).dedup :=
    Text.sort_eq_of_perm hOrder
  have hNodup : (nextRecord cfg written).paths.Nodup := Text.nodup_sort.mpr (List.nodup_dedup _)
  have hOld := Fallible.checkAll_eq_ok.mpr hPrepared.recorded
  unfold planOwnedPrune at hError
  simp only [hOld, hSorted] at hError
  rcases Fallible.bind_eq_error.mp hError with h | ⟨-, h, hRest⟩
  · cases h
  · rcases Fallible.bind_eq_error.mp hRest with hClaims | ⟨-, -, hBounds⟩
    · exact checkSingleClaims_error (entered_loadPruneRecords hPrepared.loads) hNodup hClaims
    · have hOwners := hPrepared.owners
      have hBytes := hPrepared.bytes
      unfold nextRecord at hOwners hBytes
      rw [if_neg (by omega), if_neg (by omega)] at hBounds
      cases hBounds

theorem checkAll_requireKept (hOrder : current.Perm (pruneKeepSet cfg written).dedup) :
    Fallible.checkAll (requireKept current) written = .ok () ↔
      ∀ p ∈ written, p ∈ pruneKeepSet cfg written := by
  rw [Fallible.checkAll_eq_ok]
  refine forall₂_congr fun p _ => ?_
  have hMem : p ∈ current ↔ p ∈ pruneKeepSet cfg written := by rw [hOrder.mem_iff, List.mem_dedup]
  unfold requireKept
  split_ifs with hIn
  · exact iff_of_true rfl (hMem.mp hIn)
  · exact iff_of_false (by simp) (fun h => hIn (hMem.mpr h))

variable {p : Text}

include hPrepared in
theorem checkKeptPath_error (hMem : p ∈ pruneKeepSet cfg written)
    (hValid : validatePrunePath p = .ok ())
    (hError : checkKeptPath t cfg loaded.owners p = .error err) :
    err.errorClass = .inventoryScoped := by
  rw [checkKeptPath, hValid] at hError
  rcases Fallible.bind_eq_error.mp hError with h | ⟨-, -, hRest⟩
  · cases h
  · rcases Fallible.bind_eq_error.mp hRest with h | ⟨-, -, h⟩
    · unfold checkUnadvanced at h
      split_ifs at h
      exact checkForeignClaim_error h
    · rw [hPrepared.kept p hMem] at h
      cases h

include hPrepared in
theorem checkKeptPath_ok (hMem : p ∈ pruneKeepSet cfg written)
    (hValid : validatePrunePath p = .ok ()) : checkKeptPath t cfg loaded.owners p = .ok () ↔
      (cfg.prune = false → ¬ Foreign cfg loaded.owners p) := by
  rw [checkKeptPath, hValid, hPrepared.kept p hMem]
  unfold checkUnadvanced Foreign
  cases cfg.prune with
  | true => exact iff_of_true rfl (fun h => by cases h)
  | false =>
    rw [not_not]
    cases checkForeignClaim cfg loaded.owners p with
    | ok u => exact iff_of_true rfl (fun _ => rfl)
    | error e =>
      refine iff_of_false ?_ ?_
      · intro h
        cases h
      · intro h
        cases h rfl

/- What is left once no whole set is refused. -/
structure Admitted (cfg : PruneConfig) (written : List Text) : Prop where
  owned : cfg.pruneOwner ≠ []
  owner : ¬ maxOwnerBytes < Text.byteLen cfg.pruneOwner
  count : ¬ maxPrunePaths < (pruneKeepSet cfg written).length
  kept : ∀ p ∈ written, p ∈ pruneKeepSet cfg written

/- What is done with the kept paths once they are valid. -/
def advance (sha : Digest) (t : FileTree) (cfg : PruneConfig)
    (loaded : PruneRecords) (current : List Text) : Except PruneError (Option OwnedPrunePlan) :=
  if cfg.prune then do
    let plan ← planOwnedPrune sha t cfg.pruneOwner loaded current
    pure (some plan)
  else pure none

include hPrepared in
theorem prepareInOrder_loaded (hOwned : cfg.pruneOwner ≠ [])
    (hOwner : ¬ maxOwnerBytes < Text.byteLen cfg.pruneOwner) :
    prepareInOrder sha t cfg written current =
      validateInOrder t cfg written loaded.owners current >>= advance sha t cfg loaded := by
  unfold prepareInOrder
  rw [if_neg hOwned, if_neg hOwner, hPrepared.loads]
  rfl

theorem validateInOrder_admitted (hAdmitted : Admitted cfg written)
    (hOrder : current.Perm (pruneKeepSet cfg written).dedup) :
    validateInOrder t cfg written loaded.owners current = (do
      Fallible.checkAll (checkKeptPath t cfg loaded.owners) current
      Fallible.checkAll (checkClaimPath cfg loaded.owners) cfg.pruneClaimPaths
      pure current) := by
  have hKept := (checkAll_requireKept hOrder).mpr hAdmitted.kept
  unfold validateInOrder
  rw [if_neg hAdmitted.count, hKept]
  rfl

include hPrepared

/- A set that is refused as a whole is refused with scope. -/
theorem scoped_or_admitted (hOrder : current.Perm (pruneKeepSet cfg written).dedup)
    (hError : prepareInOrder sha t cfg written current = .error err) :
    err.errorClass = .inventoryScoped ∨ Admitted cfg written := by
  by_cases hOwned : cfg.pruneOwner = []
  · rw [prepareInOrder, if_pos hOwned] at hError
    cases hError
  by_cases hOwner : maxOwnerBytes < Text.byteLen cfg.pruneOwner
  · rw [prepareInOrder, if_neg hOwned, if_pos hOwner] at hError
    cases hError
    exact Or.inl rfl
  rw [prepareInOrder_loaded hPrepared hOwned hOwner] at hError
  by_cases hCount : maxPrunePaths < (pruneKeepSet cfg written).length
  · rw [validateInOrder, if_pos hCount] at hError
    cases hError
    exact Or.inl rfl
  by_cases hKept : ∀ p ∈ written, p ∈ pruneKeepSet cfg written
  · exact Or.inr ⟨hOwned, hOwner, hCount, hKept⟩
  left
  rw [← checkAll_requireKept hOrder] at hKept
  cases hFirst : Fallible.checkAll (requireKept current) written with
  | ok u => exact absurd hFirst hKept
  | error e =>
    rw [validateInOrder, if_neg hCount, hFirst] at hError
    cases hError
    rcases Fallible.checkAll_eq_error.mp hFirst with ⟨-, p, -, -, -, hP⟩
    exact requireKept_error hP

/- Valid paths are refused with scope, in any order. -/
theorem scoped_of_valid (hAdmitted : Admitted cfg written)
    (hOrder : current.Perm (pruneKeepSet cfg written).dedup)
    (hValid : ∀ p ∈ pruneKeepSet cfg written, validatePrunePath p = .ok ()) (hClaims :
      (cfg.prune = false ∧ ∃ p ∈ pruneKeepSet cfg written, Foreign cfg loaded.owners p) ∨
        ValidFirst cfg loaded.owners)
    (hError : prepareInOrder sha t cfg written current = .error err) :
    err.errorClass = .inventoryScoped := by
  have hMem : ∀ p ∈ current, p ∈ pruneKeepSet cfg written :=
    fun p hP => List.mem_dedup.mp (hOrder.mem_iff.mp hP)
  rw [prepareInOrder_loaded hPrepared hAdmitted.owned
    hAdmitted.owner, validateInOrder_admitted hAdmitted hOrder] at hError
  rcases Fallible.bind_eq_error.mp hError with hPaths | ⟨current', hPaths, hPlan⟩
  · rcases Fallible.bind_eq_error.mp hPaths with hKept | ⟨⟨⟩, hKept, hRest⟩
    · rcases Fallible.checkAll_eq_error.mp hKept with ⟨front, p, rest, rfl, -, hP⟩
      have hIn := hMem p (by simp)
      exact checkKeptPath_error hPrepared hIn (hValid p hIn) hP
    · rcases Fallible.bind_eq_error.mp hRest with hRefused | ⟨-, -, hDone⟩
      · rcases Fallible.checkAll_eq_error.mp hRefused with ⟨front, p, rest, hSplit, hFront, hP⟩
        rcases hClaims with ⟨hPart, q, hQ, hForeign⟩ | hFirst
        · -- a foreign path would have been refused before
          have hIn : q ∈ current := hOrder.mem_iff.mpr (List.mem_dedup.mpr hQ)
          have hOk := Fallible.checkAll_eq_ok.mp hKept q hIn
          rw [checkKeptPath_ok hPrepared hQ (hValid q hQ)] at hOk
          exact absurd hForeign (hOk hPart)
        · rw [checkClaimPath, hFirst front p rest hSplit hFront] at hP
          exact checkForeignClaim_error hP
      · cases hDone
  · have hSame : current' = current := by
      rcases Fallible.bind_eq_ok.mp hPaths with ⟨-, -, hRest⟩
      rcases Fallible.bind_eq_ok.mp hRest with ⟨-, -, hDone⟩
      exact (Except.ok.inj hDone).symm
    rw [hSame] at hPlan
    unfold advance at hPlan
    split_ifs at hPlan
    · rcases Fallible.bind_eq_error.mp hPlan with hPlan | ⟨plan, -, hDone⟩
      · exact planOwnedPrune_error hPrepared hOrder hPlan
      · cases hDone
    · cases hPlan

/- The order that comes to an invalid path first. -/
theorem refused_at (hAdmitted : Admitted cfg written) (hMem : p ∈ pruneKeepSet cfg written)
    (hInvalid : validatePrunePath p = .error err) :
    prepareInOrder sha t cfg written (p :: (pruneKeepSet cfg written).dedup.erase p) =
      .error err := by
  have hOrder :
      (p :: (pruneKeepSet cfg written).dedup.erase p).Perm (pruneKeepSet cfg written).dedup :=
    (List.perm_cons_erase (List.mem_dedup.mpr hMem)).symm
  rw [prepareInOrder_loaded hPrepared hAdmitted.owned
    hAdmitted.owner, validateInOrder_admitted hAdmitted hOrder,
    Fallible.checkAll, checkKeptPath, hInvalid]
  rfl

/- An invalid claim is refused once the kept paths passed. -/
theorem refused_at_claim (hAdmitted : Admitted cfg written)
    (hValid : ∀ p ∈ pruneKeepSet cfg written, validatePrunePath p = .ok ())
    (hKept : cfg.prune = false → ∀ p ∈ pruneKeepSet cfg written, ¬ Foreign cfg loaded.owners p)
    {front rest : List Text} (hSplit : cfg.pruneClaimPaths = front ++ p :: rest)
    (hFront : ∀ q ∈ front, checkClaimPath cfg loaded.owners q = .ok ())
    (hInvalid : validatePrunePath p = .error err) :
    prepareInOrder sha t cfg written (pruneKeepSet cfg written).dedup = .error err := by
  have hPaths : Fallible.checkAll (checkKeptPath t cfg loaded.owners)
      (pruneKeepSet cfg written).dedup = .ok () := by
    rw [Fallible.checkAll_eq_ok]
    intro q hQ
    rw [List.mem_dedup] at hQ
    rw [checkKeptPath_ok hPrepared hQ (hValid q hQ)]
    intro hPart
    exact hKept hPart q hQ
  have hClaim : checkClaimPath cfg loaded.owners p = .error err := by
    rw [checkClaimPath, hInvalid]
    rfl
  have hClaims : Fallible.checkAll
      (checkClaimPath cfg loaded.owners) cfg.pruneClaimPaths = .error err :=
    Fallible.checkAll_eq_error.mpr ⟨front, p, rest, hSplit, hFront, hClaim⟩
  rw [prepareInOrder_loaded hPrepared hAdmitted.owned hAdmitted.owner,
    validateInOrder_admitted hAdmitted (List.Perm.refl _), hPaths, hClaims]
  rfl

end Rejections

/-
  Rejections are kept from the breaker exactly when no invalid path is met first: an invalid or
  reserved path is refused with an error that the breaker counts.
-/
theorem rejections_are_scoped_iff (sha : Digest) (text : PruneError → Text) (t : FileTree)
    (cfg : PruneConfig) (written : List Text) (loaded : PruneRecords)
    (hPrepared : Prepared sha t cfg written loaded) :
    RejectionsScoped sha text t cfg written ↔ ScopedWhen cfg written loaded.owners := by
  constructor
  · intro hScoped
    have hNever : ∀ current p err,
        current.Perm (pruneKeepSet cfg written).dedup →
        validatePrunePath p = .error err →
        prepareInOrder sha t cfg written current ≠
          .error err := by
      intro current p err hOrder hInvalid hError
      have hClass := (isInventoryScoped_goError text err).mp (hScoped current err hOrder hError).1
      rw [validatePrunePath_error hInvalid] at hClass
      cases hClass
    by_cases hOwned : cfg.pruneOwner = []
    · exact Or.inl hOwned
    by_cases hOwner : maxOwnerBytes < Text.byteLen cfg.pruneOwner
    · exact Or.inr (Or.inl hOwner)
    by_cases hCount : maxPrunePaths < (pruneKeepSet cfg written).length
    · exact Or.inr (Or.inr (Or.inl hCount))
    by_cases hIn : ∃ p ∈ written, p ∉ pruneKeepSet cfg written
    · exact Or.inr (Or.inr (Or.inr (Or.inl hIn)))
    push Not at hIn
    have hAdmitted : Admitted cfg written := ⟨hOwned, hOwner, hCount, hIn⟩
    have hValid : ∀ p ∈ pruneKeepSet cfg written, validatePrunePath p = .ok () := by
      intro p hP
      cases hCheck : validatePrunePath p with
      | ok u => rfl
      | error err =>
        have hOrder := List.perm_cons_erase (List.mem_dedup.mpr hP)
        exact absurd (refused_at hPrepared hAdmitted hP hCheck) (hNever _ p err hOrder.symm hCheck)
    refine Or.inr (Or.inr (Or.inr (Or.inr ⟨hValid, ?_⟩)))
    by_cases hPart : cfg.prune = false ∧ ∃ p ∈ pruneKeepSet cfg written, Foreign cfg loaded.owners p
    · exact Or.inl hPart
    · right
      intro front p rest hSplit hFront
      cases hCheck : validatePrunePath p with
      | ok u => rfl
      | error err =>
        have hKept : cfg.prune = false →
            ∀ p ∈ pruneKeepSet cfg written, ¬ Foreign cfg loaded.owners p :=
          fun h q hQ hForeign => hPart ⟨h, q, hQ, hForeign⟩
        exact absurd (refused_at_claim hPrepared hAdmitted hValid hKept hSplit hFront hCheck)
          (hNever _ p err (List.Perm.refl _) hCheck)
  · intro hWhen current err hOrder hError
    have hClass : err.errorClass = .inventoryScoped := by
      rcases scoped_or_admitted hPrepared hOrder hError with hClass | hAdmitted
      · exact hClass
      · rcases hWhen with h | h | h | ⟨p, hP, h⟩ | ⟨hValid, hClaims⟩
        · exact absurd h hAdmitted.owned
        · exact absurd h hAdmitted.owner
        · exact absurd h hAdmitted.count
        · exact absurd (hAdmitted.kept p hP) h
        · exact scoped_of_valid hPrepared hAdmitted hOrder hValid hClaims hError
    have hScoped := (isInventoryScoped_goError text err).mpr hClass
    exact ⟨hScoped, (outcome_exportResult text err).mpr hScoped⟩

/- An export of one inventory, with a record of its own. -/
def ownedExport (claims : List Text) : PruneConfig where
  pruneOwner := "team-a/apps"
  prune := true
  pruneKeepPaths := []
  pruneClaimPaths := claims

theorem checkComponents_empty (parts : List Text) : checkComponents ∅ parts = .ok () := by
  cases parts with
  | nil => rfl
  | cons part parts =>
    cases parts with
    | nil => rfl
    | cons next parts => rfl

theorem prepared_empty (claims written : List Text)
    (hBytes : Text.byteLen (encodeRecord (nextRecord (ownedExport claims) written)) ≤
        maxPruneMetadataBytes) :
    Prepared paddedDigest ∅ (ownedExport claims) written ⟨∅, ∅, 0⟩ where
  loads := rfl
  kept p _ := checkComponents_empty _
  recorded p _ := checkComponents_empty _
  owners := by
    rw [AList.keys_insert]
    exact (by decide : 1 ≤ maxPruneOwners)
  bytes := by
    rw [Nat.zero_sub, Nat.zero_add]
    exact hBytes

theorem plain_export_is_scoped :
    RejectionsScoped paddedDigest (fun _ => []) ∅ (ownedExport ["set.json"]) ["a.json"] := by
  have hBytes : Text.byteLen (encodeRecord (nextRecord (ownedExport ["set.json"]) ["a.json"])) ≤
        maxPruneMetadataBytes := by
    decide +kernel
  have hKept : ∀ p ∈ (["a.json"] : List Text), validatePrunePath p = .ok () := by decide +kernel
  have hClaims : ∀ p ∈ (["set.json"] : List Text), validatePrunePath p = .ok () := by decide +kernel
  have hWhen : ScopedWhen (ownedExport ["set.json"]) ["a.json"] ∅ := by
    refine Or.inr (Or.inr (Or.inr (Or.inr ⟨hKept, Or.inr ?_⟩)))
    intro front p rest hSplit _
    apply hClaims
    have hSame : (["set.json"] : List Text) = front ++ p :: rest := hSplit
    rw [hSame]
    simp
  exact (rejections_are_scoped_iff paddedDigest (fun _ => []) ∅
      (ownedExport ["set.json"]) ["a.json"] ⟨∅, ∅, 0⟩ (prepared_empty _ _ hBytes)).mpr hWhen

/-
  An inventory that writes under `.git` is refused, and the breaker of the sink counts a failure.
-/
theorem reserved_path_is_counted : Prepared paddedDigest ∅ (ownedExport []) [".git/a"] ⟨∅, ∅, 0⟩ ∧
      prepareOwnedPrune paddedDigest ∅ (ownedExport [])
          [".git/a"] = .error (.reservedPath ".git/a") ∧
      ((PruneError.reservedPath ".git/a").exportResult (fun _ => [])).outcome = .failure ∧
      ¬ RejectionsScoped paddedDigest (fun _ => []) ∅ (ownedExport []) [".git/a"] := by
  have hBytes : Text.byteLen (encodeRecord (nextRecord (ownedExport []) [".git/a"])) ≤
        maxPruneMetadataBytes := by
    decide +kernel
  have hError : prepareOwnedPrune paddedDigest ∅
      (ownedExport []) [".git/a"] = .error (.reservedPath ".git/a") := by
    decide +kernel
  refine ⟨prepared_empty _ _ hBytes, hError, rfl, ?_⟩
  intro hScoped
  have hMarked := (hScoped _ _ (List.Perm.refl _) hError).1
  cases hMarked

end Git

end Sink

end Kollect
