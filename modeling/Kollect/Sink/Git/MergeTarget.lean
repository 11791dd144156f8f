import Kollect.Sink.Git.Mirror
import Kollect.Sink.Git.Ownership

/-
  Merge requests to a target branch (`sink/git/prune_target.go`, `sink/git/export.go`).

  In merge-request mode an inventory exports to its own feature branch. An export is checked against
  the records of the target as it is at that time; the record reaches the target with the merge,
  which may come much later.

  Key theorems include:
    * `exportRemoteInWorkdir_tips`
    * `merges_keep_single_claims`
-/

namespace Kollect
namespace Sink
namespace Git

----
-- Tips Of Branches
----

/- A tip of the branch, on the remote or in the mirror. -/
def World.Tip (w : World) (branch : Text) (c : Commit) : Prop :=
  w.remote.lookup branch = some c ∨ w.localTip branch = some c

/- The branches with a tip. -/
def World.tips (w : World) : List (Text × Commit) :=
  (w.remote.entries ++ if w.mirror.warm then w.mirror.refs.entries else []).map fun entry =>
    (entry.1, entry.2)

theorem World.mem_tips {w : World} {branch : Text} {c : Commit} (hTip : w.Tip branch c) :
    (branch, c) ∈ w.tips := by
  refine List.mem_map.mpr ⟨⟨branch, c⟩, List.mem_append.mpr ?_, rfl⟩
  rcases hTip with hRemote | hLocal
  · exact .inl (AList.mem_lookup_iff.mp hRemote)
  · unfold World.localTip at hLocal
    split_ifs at hLocal with hWarm
    rw [if_pos hWarm]
    exact .inr (AList.mem_lookup_iff.mp hLocal)

/- A push moves one branch, to a tip that it had. -/
structure Branches.Moves (branch : Text) (b b' : Branches) : Prop where
  others : ∀ other, other ≠ branch →
    b'.refs.lookup other = b.refs.lookup other ∧ b'.remote.lookup other = b.remote.lookup other
  tips : ∀ c, b'.refs.lookup branch = some c ∨ b'.remote.lookup branch = some c →
    b.refs.lookup branch = some c ∨ b.remote.lookup branch = some c

section Push

variable (force forcePush : Bool) (branch : Text)

namespace Branches

theorem Moves.refl (b : Branches) : b.Moves branch b := ⟨fun _ _ => ⟨rfl, rfl⟩, fun _ hC => hC⟩

variable {branch}

theorem Moves.trans {b b' b'' : Branches} (h : b.Moves branch b') (h' : b'.Moves branch b'') :
    b.Moves branch b'' := by
  refine ⟨?_, fun c hC => h.tips c (h'.tips c hC)⟩
  intro other hNe
  rw [(h'.others other hNe).1, (h'.others other hNe).2]
  exact h.others other hNe

theorem Moves.pushed (b : Branches) {c : Commit}
    (hC : b.refs.lookup branch = some c ∨ b.remote.lookup branch = some c) :
    b.Moves branch ⟨b.refs, b.remote.insert branch c⟩ := by
  constructor
  · intro other hNe
    exact ⟨rfl, AList.lookup_insert_ne hNe⟩
  · intro c' hC'
    rcases hC' with hLocal | hRemote
    · exact .inl hLocal
    · rw [AList.lookup_insert] at hRemote
      rw [← Option.some.inj hRemote]
      exact hC

theorem Moves.fetched (b : Branches) {c : Commit} (hC : b.remote.lookup branch = some c) :
    b.Moves branch ⟨b.refs.insert branch c, b.remote⟩ := by
  constructor
  · intro other hNe
    exact ⟨AList.lookup_insert_ne hNe, rfl⟩
  · intro c' hC'
    rcases hC' with hLocal | hRemote
    · rw [AList.lookup_insert] at hLocal
      rw [← Option.some.inj hLocal]
      exact .inr hC
    · exact .inr hRemote

end Branches

theorem moves_pushOnce (b : Branches) {c : Commit}
    (hC : b.refs.lookup branch = some c ∨ b.remote.lookup branch = some c) (reached acked : Bool) :
    b.Moves branch ⟨b.refs, (pushOnce force b.remote branch c reached acked).1⟩ := by
  unfold pushOnce
  split_ifs
  · exact .refl branch b
  · split
    · exact .pushed b hC
    · split_ifs
      · exact .refl branch b
      · exact .pushed b hC
      · exact .refl branch b

theorem moves_recoverPush (b : Branches) (try_ : PushTry) :
    b.Moves branch (recoverPush force branch b try_).1 := by
  unfold recoverPush
  cases hTip : b.remote.lookup branch with
  | none =>
    rw [ite_self]
    exact .refl branch b
  | some tip =>
    have hFetched := Branches.Moves.fetched b hTip
    dsimp only
    split_ifs
    · exact .refl branch b
    · exact hFetched
    · exact hFetched.trans (moves_pushOnce force branch ⟨b.refs.insert branch tip, b.remote⟩
        (.inr hTip) try_.retryReached try_.retryAcked)

theorem moves_pushTry (b : Branches) (try_ : PushTry) :
    b.Moves branch (pushTry force forcePush branch b try_).1 := by
  unfold pushTry
  cases hC : b.refs.lookup branch with
  | none => exact .refl branch b
  | some c =>
    have hPush := moves_pushOnce force branch b (.inl hC) try_.reached try_.acked
    dsimp only
    split_ifs
    · exact hPush.trans (moves_recoverPush force branch _ try_)
    · exact hPush

theorem moves_pushRetries (tries : List PushTry) (b : Branches) :
    b.Moves branch (pushRetries force forcePush branch b tries).1 := by
  induction tries generalizing b with
  | nil => exact .refl branch b
  | cons try_ tries ih =>
    have hTry := moves_pushTry force forcePush branch b try_
    rw [pushRetries]
    rcases hEq : pushTry force forcePush branch b try_ with ⟨b', outcome⟩
    rw [hEq] at hTry
    cases outcome with
    | done => exact hTry
    | rejected | failed => exact hTry.trans (ih b')

end Push

----
-- One Export To A Feature Branch
----

section Attempt

variable {sha : Digest} {clone : Text} {w : World} {a : Attempt} {target : Commit}

/-
  The tree of a commit of the attempt: its claims are free on the target, and its files are written
  over the target or over the branch as the mirror has it.
-/
structure Snapshot (sha : Digest) (w : World) (a : Attempt) (target : Commit) (t : FileTree) where
  base : Commit
  loaded : PruneRecords
  change : TreeChange
  from_ : base = target ∨ w.localTip a.pushBranch = some base
  load : loadPruneRecords sha target.tree = .ok loaded
  free : ∀ p ∈ pruneKeepSet a.content.cfg a.paths,
    checkForeignClaim a.content.cfg loaded.owners p = .ok ()
  write : writeExportFiles sha base.tree a.content.cfg a.content.files = .ok change
  tree : t = stageChanges base.tree change.tree a.content.cfg.prune a.paths

theorem checkout_feature {opened m : Mirror} {result : Option Commit}
    (hOpened : Opened clone w opened) (hTarget : w.remote.lookup clone = some target)
    (hFeature : a.pushBranch ≠ clone)
    (hCheckout : checkoutMirrorBranch clone a.pushBranch opened = (m, result)) :
    ∃ base, (base = target ∨ w.localTip a.pushBranch = some base) ∧
      m.refs = opened.refs.insert a.pushBranch base ∧
      ∀ tip, result = some tip → tip = base ∧ m.index = base.tree ∧ m.worktree = base.tree := by
  have hTip : ∃ base,
      opened.checkoutTip clone a.pushBranch = some base ∧
        (base = target ∨ w.localTip a.pushBranch = some base) := by
    unfold Mirror.checkoutTip
    rw [hOpened.others _ hFeature, hOpened.clone, hTarget]
    cases hLocal : w.localTip a.pushBranch with
    | some base => exact ⟨base, rfl, .inr rfl⟩
    | none => exact ⟨target, rfl, .inl rfl⟩
  rcases hTip with ⟨base, hBase, hFrom⟩
  refine ⟨base, hFrom, ?_⟩
  unfold checkoutMirrorBranch at hCheckout
  rw [hBase] at hCheckout
  dsimp only at hCheckout
  split_ifs at hCheckout
  · rcases Prod.mk.inj hCheckout with ⟨hM, hResult⟩
    rw [← hM, ← hResult]
    exact ⟨rfl, fun tip hTip => nomatch hTip⟩
  · rcases Prod.mk.inj hCheckout with ⟨hM, hResult⟩
    rw [← hM, ← hResult]
    refine ⟨rfl, ?_⟩
    intro tip hTip
    exact ⟨(Option.some.inj hTip).symm, rfl, rfl⟩

theorem claims_free {m : Mirror} (hOwner : a.content.cfg.pruneOwner ≠ [])
    (hFeature : a.pushBranch ≠ clone) (hTarget : m.refs.lookup clone = some target)
    (hOk : checkMergeTargetClaims sha clone m a = .ok ()) :
    ∃ loaded, loadPruneRecords sha target.tree = .ok loaded ∧
      ∀ p ∈ pruneKeepSet a.content.cfg a.paths,
        checkForeignClaim a.content.cfg loaded.owners p = .ok () := by
  unfold checkMergeTargetClaims at hOk
  rw [if_neg (by simp [hOwner, hFeature]), hTarget] at hOk
  rw [Fallible.bind_eq_ok] at hOk
  rcases hOk with ⟨loaded, hLoad, hCheck⟩
  rw [Fallible.checkAll_eq_ok] at hCheck
  refine ⟨loaded, hLoad, ?_⟩
  intro p hP
  apply hCheck
  rw [Text.mem_sort]
  exact List.mem_append_left _ hP

/- Where an attempt may leave a branch. -/
def MayLeave (sha : Digest) (w : World) (a : Attempt) (target : Commit)
    (branch : Text) (c : Commit) : Prop :=
  w.Tip branch c ∨ branch = a.pushBranch ∧ (c = target ∨ Nonempty (Snapshot sha w a target c.tree))

/- Branches as an attempt may leave them. -/
structure Left (sha : Digest) (clone : Text) (w : World) (a : Attempt)
    (target : Commit) (b : Branches) : Prop where
  kept : b.remote.lookup clone = some target
  tips : ∀ branch c, branch ≠ clone →
    b.refs.lookup branch = some c ∨ b.remote.lookup branch = some c →
    MayLeave sha w a target branch c

namespace Left

theorem moves {b b' : Branches} (hFeature : a.pushBranch ≠ clone)
    (h : Left sha clone w a target b) (hMoves : b.Moves a.pushBranch b') :
    Left sha clone w a target b' := by
  constructor
  · rw [(hMoves.others clone hFeature.symm).2]
    exact h.kept
  · intro branch c hBranch hC
    apply h.tips branch c hBranch
    by_cases hPush : branch = a.pushBranch
    · rw [hPush] at hC ⊢
      exact hMoves.tips c hC
    · rw [← (hMoves.others branch hPush).1, ← (hMoves.others branch hPush).2]
      exact hC

theorem insert {b : Branches} (h : Left sha clone w a target b)
    {c : Commit} (hC : MayLeave sha w a target a.pushBranch c) :
    Left sha clone w a target ⟨b.refs.insert a.pushBranch c, b.remote⟩ := by
  refine ⟨h.kept, ?_⟩
  intro branch c' hBranch hC'
  rw [GoMap.lookup_insert_ite] at hC'
  split_ifs at hC' with hPush
  · rcases hC' with hLocal | hRemote
    · rw [hPush, ← Option.some.inj hLocal]
      exact hC
    · exact h.tips branch c' hBranch (.inr hRemote)
  · exact h.tips branch c' hBranch hC'

theorem world {w' : World} (h : Left sha clone w a target ⟨w'.mirror.refs, w'.remote⟩) :
    w'.remote.lookup clone = some target ∧
      ∀ branch c, branch ≠ clone → w'.Tip branch c → MayLeave sha w a target branch c := by
  refine ⟨h.kept, ?_⟩
  intro branch c hBranch hTip
  apply h.tips branch c hBranch
  rcases hTip with hRemote | hLocal
  · exact .inr hRemote
  · unfold World.localTip at hLocal
    split_ifs at hLocal
    exact .inl hLocal

end Left

theorem left_opened {opened : Mirror} (hOpened : Opened clone w opened)
    (hTarget : w.remote.lookup clone = some target) :
    Left sha clone w a target ⟨opened.refs, w.remote⟩ := by
  refine ⟨hTarget, ?_⟩
  intro branch c hBranch hC
  left
  rcases hC with hLocal | hRemote
  · rw [hOpened.others branch hBranch] at hLocal
    exact .inr hLocal
  · exact .inl hRemote

/-
  An export moves no other branch, and its own branch only to the target or to a commit of its own.
-/
theorem exportRemoteInWorkdir_tips
    (hOwner : a.content.cfg.pruneOwner ≠ []) (hFeature : a.pushBranch ≠ clone)
    (hTarget : w.remote.lookup clone = some target) :
    let w' := (exportRemoteInWorkdir sha clone w a).1
    w'.remote.lookup clone = some target ∧
      ∀ branch c, branch ≠ clone → w'.Tip branch c → MayLeave sha w a target branch c := by
  unfold exportRemoteInWorkdir
  cases hOpen : openOrWarmMirror clone w a.transportOk with
  | none => exact ⟨hTarget, fun branch c _ hTip => .inl hTip⟩
  | some result =>
    rcases result with ⟨opened, emptyRemote⟩
    have hOpened := opened_of_openOrWarmMirror hOpen
    rcases hCheckout :
      checkoutMirrorBranch clone a.pushBranch opened
      with ⟨m, result⟩
    rcases checkout_feature hOpened hTarget hFeature hCheckout with ⟨base, hFrom, hRefs, hResult⟩
    have hBase : MayLeave sha w a target a.pushBranch base := by
      rcases hFrom with hEq | hLocal
      · exact .inr ⟨rfl, .inl hEq⟩
      · exact .inl (.inr hLocal)
    have hLeft : Left sha clone w a target ⟨m.refs, w.remote⟩ := by
      rw [hRefs]
      exact (left_opened hOpened hTarget).insert hBase
    simp only [hCheckout]
    cases result with
    | none => exact hLeft.world
    | some tip =>
      rcases hResult tip rfl with ⟨hTip, hIndex, hWorktree⟩
      subst hTip
      dsimp only
      unfold exportOnBranch
      cases hClaims : checkMergeTargetClaims sha clone m a with
      | error e => exact hLeft.world
      | ok _ =>
        rw [hWorktree, hIndex]
        cases hWrite : writeExportFiles sha tip.tree a.content.cfg a.content.files with
        | error e => exact hLeft.world
        | ok change =>
          dsimp only
          split_ifs
          · exact hLeft.world
          · have hClone : m.refs.lookup clone = some target := by
              rw [hRefs, AList.lookup_insert_ne hFeature.symm, hOpened.clone, hTarget]
            rcases claims_free hOwner hFeature hClone hClaims with ⟨loaded, hLoad, hFree⟩
            have hSnapshot : Nonempty (Snapshot sha w a
                target (stageChanges tip.tree change.tree a.content.cfg.prune a.paths)) :=
              ⟨⟨tip, loaded, change, hFrom, hLoad, hFree, hWrite, rfl⟩⟩
            apply Left.world
            refine Left.moves hFeature ?_ (moves_pushRetries _ _ _ _ _)
            exact hLeft.insert (.inr ⟨rfl, .inr hSnapshot⟩)

end Attempt

----
-- Merging A Feature Branch
----

/-
  The files that a merge takes from the branch of an owner. The branch only changes the owner's
  record; a record of another owner is as new on the target.
-/
def takesBranch (sha : Digest) (owner : Text) (target : FileTree) (p : Text) : Bool :=
  !inMetadata p || decide (p = pruneRecordPath sha owner) || (target.lookup p).isNone

/- The union of both trees. -/
def mergeTrees (sha : Digest) (owner : Text) (target branch : FileTree) : FileTree :=
  branch.filterKeys (takesBranch sha owner target) ∪ target

theorem lookup_mergeTrees (sha : Digest) (owner : Text) (target branch : FileTree) (p : Text) :
    (mergeTrees sha owner target branch).lookup p =
      if takesBranch sha owner target p = true ∧ (branch.lookup p).isSome = true then
        branch.lookup p
      else target.lookup p := by
  have hTaken : p ∈ branch.filterKeys (takesBranch sha owner target) ↔
      takesBranch sha owner target p = true ∧ (branch.lookup p).isSome = true := by
    rw [← AList.lookup_isSome, GoMap.lookup_filterKeys]
    split_ifs with hTakes
    · exact (and_iff_right hTakes).symm
    · simp [hTakes]
  unfold mergeTrees
  split_ifs with hIf
  · rw [AList.lookup_union_left (hTaken.mpr hIf), GoMap.lookup_filterKeys, if_pos hIf.1]
  · exact AList.lookup_union_right fun hMem => hIf (hTaken.mp hMem)

/- The record files of the tree are within the bounds on their number and on their bytes. -/
def metadataFits (t : FileTree) : Bool :=
  decide ((t.childNames pruneMetadataDir).length ≤ maxPruneOwners) &&
    decide (((t.childNames pruneMetadataDir).map fun name =>
      sizeAt t (pruneMetadataDir ++ '/' :: name)).sum ≤ maxPruneMetadataBytes)

/- The records of some owners are among the record files. -/
theorem bounds_of_metadataFits {sha : Digest} {known : Text → Prop} {t : FileTree}
    (hSha : CollisionFree sha known) {os : List Text} (hNodup : os.Nodup)
    (hKnown : ∀ o ∈ os, known o) (hFiles : ∀ o ∈ os, (t.lookup (pruneRecordPath sha o)).isSome)
    (hFits : metadataFits t = true) :
    os.length ≤ maxPruneOwners ∧ recordBytes sha t os ≤ maxPruneMetadataBytes := by
  simp only [metadataFits, Bool.and_eq_true, decide_eq_true_eq] at hFits
  have hNames : (os.map (pruneRecordName sha)).Nodup := by
    refine hNodup.map_on fun o hO o' hO' hSame => ?_
    exact recordPath_injective hSha (hKnown o hO) (hKnown o' hO') (by simp [pruneRecordPath, hSame])
  have hSubset : os.map (pruneRecordName sha) ⊆ t.childNames pruneMetadataDir := by
    intro name hName
    obtain ⟨o, hO, rfl⟩ := List.mem_map.mp hName
    rw [FileTree.mem_childNames]
    exact ⟨_, FileTree.mem_keys_iff_lookup.mpr (hFiles o hO),
      FileTree.childName_append (noSlash_recordName o)⟩
  obtain ⟨names, hPerm, hSublist⟩ := List.subperm_of_subset hNames hSubset
  constructor
  · rw [← os.length_map (f := pruneRecordName sha), ← hPerm.length_eq]
    exact hSublist.length_le.trans hFits.1
  · have hSum : recordBytes sha t os =
        (names.map fun name => sizeAt t (pruneMetadataDir ++ '/' :: name)).sum := by
      rw [(hPerm.map _).sum_eq, List.map_map]
      rfl
    rw [hSum]
    exact ((hSublist.map _).sum_le_sum fun _ _ => Nat.zero_le _).trans hFits.2

section Merge

variable {sha : Digest} {known : Text → Prop} {target branch : FileTree} {recs own : RecordBook}
variable {owner : Text}

/- Other owners' records come from the target. -/
def Extends (owner : Text) (recs own : RecordBook) : Prop :=
  ∀ o ∈ own.keys, o ≠ owner → o ∈ recs.keys

/- No other owner's record on the target lists a path of the owner's record. -/
def Free (owner : Text) (recs own : RecordBook) : Prop :=
  ∀ paths o paths' p, own.lookup owner = some paths → o ≠ owner → recs.lookup o = some paths' →
    p ∈ paths' → p ∉ paths

theorem metadata_mergeTrees (hLedger : Ledger sha known target recs)
    (hBranch : Ledger sha known branch own)
    (hExtends : Extends owner recs own) {p : Text} (hAt : AtMetadata p) :
    (mergeTrees sha owner target branch).lookup p =
      if p = pruneRecordPath sha owner ∧ (branch.lookup p).isSome = true then branch.lookup p
      else target.lookup p := by
  rw [lookup_mergeTrees]
  by_cases hThere : (branch.lookup p).isSome = true
  · have hIn : inMetadata p = true := by
      rcases hAt with hIn | hDir
      · exact hIn
      · rw [hDir, hBranch.noFile] at hThere
        cases hThere
    rcases hBranch.recorded p (FileTree.mem_keys_iff_lookup.mpr hThere) hIn with ⟨o, hO, hPath⟩
    by_cases hOwn : o = owner
    · have hTakes : takesBranch sha owner target p = true := by
        rw [takesBranch, hPath, hOwn]
        simp
      rw [if_pos ⟨hTakes, hThere⟩, if_pos ⟨by rw [hPath, hOwn], hThere⟩]
    · -- the target has the record of another owner, too
      rcases mem_keys_iff_exists.mp (hExtends o hO hOwn) with ⟨paths, hRecord⟩
      have hOnTarget := hLedger.file o paths hRecord
      rw [← hPath] at hOnTarget
      by_cases hSame : p = pruneRecordPath sha owner
      · have hTakes : takesBranch sha owner target p = true := by
          rw [takesBranch, hSame]
          simp
        rw [if_pos ⟨hTakes, hThere⟩, if_pos ⟨hSame, hThere⟩]
      · have hLeaves : takesBranch sha owner target p = false := by
          rw [takesBranch, hIn, hOnTarget]
          simp [hSame]
        rw [if_neg (by simp [hLeaves]), if_neg (by simp [hSame])]
  · rw [if_neg (by simp [hThere]), if_neg (by simp [hThere])]

/- The merged records are those of the target, with that of the branch's owner. -/
theorem ledger_mergeTrees (hSha : CollisionFree sha known) (hKnown : known owner)
    (hLedger : Ledger sha known target recs)
    (hBranch : Ledger sha known branch own) (hExtends : Extends owner recs own)
    (hFree : Free owner recs own)
    (hFits : metadataFits (mergeTrees sha owner target branch) = true) :
    ∃ recs', Ledger sha known (mergeTrees sha owner target branch) recs' ∧
      (∀ o ∈ recs.keys, o ∈ recs'.keys) ∧ ∀ o paths, recs'.lookup o = some paths →
        recs.lookup o = some paths ∨ o = owner ∧ own.lookup owner = some paths := by
  cases hRecord : own.lookup owner with
  | none =>
    -- the branch has no record of its owner
    refine ⟨recs, hLedger.of_metadata_eq ?_, fun o hO => hO, fun o paths hO => .inl hO⟩
    intro p hAt
    rw [metadata_mergeTrees hLedger hBranch hExtends hAt]
    apply if_neg
    intro hTaken
    rcases hBranch.recorded p (FileTree.mem_keys_iff_lookup.mpr hTaken.2)
      (by rw [hTaken.1]; exact inMetadata_recordPath owner) with ⟨o, hO, hPath⟩
    have hEq : owner = o := recordPath_injective hSha hKnown
      (hBranch.isKnown o hO) (hTaken.1.symm.trans hPath)
    rcases mem_keys_iff_exists.mp hO with ⟨paths, hPaths⟩
    rw [← hEq, hRecord] at hPaths
    cases hPaths
  | some paths =>
    have hFile := hBranch.file owner paths hRecord
    have hKey : owner ∈ own.keys := mem_keys_iff_exists.mpr ⟨paths, hRecord⟩
    have hLookup : ∀ p, AtMetadata p → (mergeTrees sha owner target branch).lookup p =
        if p = pruneRecordPath sha owner then some (encodeRecord ⟨1, owner, paths⟩)
        else target.lookup p := by
      intro p hAt
      rw [metadata_mergeTrees hLedger hBranch hExtends hAt]
      by_cases hP : p = pruneRecordPath sha owner
      · rw [if_pos ⟨hP, by rw [hP, hFile]; rfl⟩, if_pos hP, hP, hFile]
      · rw [if_neg (fun h => hP h.1), if_neg hP]
    have hKeys : ∀ o ∈ (recs.insert owner paths).keys, o = owner ∨ o ∈ recs.keys := by
      intro o hO
      rw [← AList.mem_keys, AList.mem_insert, AList.mem_keys] at hO
      exact hO
    obtain ⟨hCount, hBytes⟩ := bounds_of_metadataFits hSha (recs.insert owner paths).keys_nodup
      (fun o hO => (hKeys o hO).elim (fun hEq => hEq ▸ hKnown) (hLedger.isKnown o))
      (fun o hO => by
        rw [hLookup _ (atMetadata_recordPath sha o)]
        split_ifs with hSame
        · rfl
        · obtain ⟨paths', hOld⟩ := mem_keys_iff_exists.mp
            ((hKeys o hO).resolve_left fun hEq => hSame (hEq ▸ rfl))
          rw [hLedger.file o paths' hOld]
          rfl)
      hFits
    refine ⟨recs.insert owner paths, hLedger.insert hSha hKnown hLookup
      (hBranch.owner owner hKey) (hBranch.fits owner paths hRecord) ?_ hCount hBytes, ?_, ?_⟩
    · intro o paths' p hNe hOther hP
      exact hFree paths o paths' p hRecord hNe hOther hP
    · intro o hO
      rw [← AList.mem_keys, AList.mem_insert, AList.mem_keys]
      exact .inr hO
    · intro o paths' hO
      rw [GoMap.lookup_insert_ite] at hO
      split_ifs at hO with hEq
      · exact .inr ⟨hEq, hO⟩
      · exact .inl hO

end Merge

----
-- What A Feature Branch Records
----

theorem lookup_stageChanges (index worktree : FileTree) {paths : List Text} {p : Text}
    (hP : p ∉ paths) : (stageChanges index worktree false paths).lookup p = index.lookup p := by
  unfold stageChanges
  rw [if_neg Bool.false_ne_true]
  induction paths generalizing index with
  | nil => rfl
  | cons q paths ih =>
    rw [List.mem_cons, not_or] at hP
    rw [List.foldl_cons, ih _ hP.2]
    cases worktree.lookup q with
    | none => rfl
    | some data => exact AList.lookup_insert_ne hP.1

section Record

variable {sha : Digest} {known : Text → Prop} {w : World} {a : Attempt} {target : Commit}
variable {recs base own : RecordBook} {t : FileTree}

/-
  A commit of an export: the records of others are those of its base, and a record that is advanced
  lists what is kept.
-/
theorem Snapshot.book (hSha : CollisionFree sha known) (hKnown : known a.content.cfg.pruneOwner)
    (hOwner : a.content.cfg.pruneOwner ≠ [])
    (hText : ∀ p ∈ pruneKeepSet a.content.cfg a.paths, Text.IsText p)
    (snap : Snapshot sha w a target t) (hBase : Ledger sha known snap.base.tree base) :
    ∃ own, Ledger sha known t own ∧
      (∀ o, o ≠ a.content.cfg.pruneOwner ∨ a.content.cfg.prune = false →
        own.lookup o = base.lookup o) ∧
      (a.content.cfg.prune = true → ∃ paths, own.lookup a.content.cfg.pruneOwner = some paths ∧
            ∀ p, p ∈ paths ↔ p ∈ pruneKeepSet a.content.cfg a.paths) := by
  rcases book_writeExportFiles hSha hBase hKnown hOwner hText snap.write with
    ⟨own, hOwn, hSame, hKept⟩
  rw [snap.tree]
  cases hPrune : a.content.cfg.prune with
  | true => exact ⟨own, hOwn, fun o hO => hSame o (hPrune ▸ hO), fun _ => hKept hPrune⟩
  | false =>
    refine ⟨base, hBase.of_metadata_eq ?_, fun _ _ => rfl, fun hOn => nomatch hOn⟩
    intro p hAt
    apply lookup_stageChanges
    intro hMem
    rcases List.mem_map.mp hMem with ⟨f, hF, hPath⟩
    apply not_atMetadata_of_valid (a.content.valid f hF)
    rw [hPath]
    exact hAt

/- What the export was checked for: no record of another on the target lists a kept path. -/
theorem Snapshot.unclaimed (hSha : CollisionFree sha known) (snap : Snapshot sha w a target t)
    (hTarget : Ledger sha known target.tree recs) {o p : Text} {paths : List Text}
    (hRecord : recs.lookup o = some paths) (hP : p ∈ paths)
    (hKept : p ∈ pruneKeepSet a.content.cfg a.paths) : o = a.content.cfg.pruneOwner := by
  obtain ⟨loaded, hLoad, hLoaded, -⟩ := loadPruneRecords_of_ledger hSha hTarget
  obtain rfl : snap.loaded = loaded := Except.ok.inj (snap.load.symm.trans hLoad)
  exact checkForeignClaim_eq_ok.mp (snap.free p hKept) o
    ((hLoaded.owners p o).mpr ⟨trivial, paths, hRecord, hP⟩)

/-
  The record on a branch is free after an export: as it was on the branch, or as it was checked on
  the target.
-/
theorem Snapshot.free_book (hSha : CollisionFree sha known) (snap : Snapshot sha w a target t)
    (hTarget : Ledger sha known target.tree recs) (hFree : Free a.content.cfg.pruneOwner recs base)
    (hSame : a.content.cfg.prune = false →
      own.lookup a.content.cfg.pruneOwner = base.lookup a.content.cfg.pruneOwner)
    (hKept : a.content.cfg.prune = true → ∃ paths,
      own.lookup a.content.cfg.pruneOwner = some paths ∧
        ∀ p, p ∈ paths ↔ p ∈ pruneKeepSet a.content.cfg a.paths) :
    Free a.content.cfg.pruneOwner recs own := by
  cases hPrune : a.content.cfg.prune with
  | false =>
    intro paths o paths' p hOwn
    rw [hSame hPrune] at hOwn
    exact hFree paths o paths' p hOwn
  | true =>
    obtain ⟨kept, hRecord, hMem⟩ := hKept hPrune
    intro paths o paths' p hOwn hNe hOther hP' hP
    rw [hRecord] at hOwn
    obtain rfl := Option.some.inj hOwn
    exact hNe (snap.unclaimed hSha hTarget hOther hP' ((hMem p).mp hP))

end Record

----
-- Runs Of Exports And Merges
----

/- Inventories that export to a target branch through feature branches, each with its owner. -/
structure MergeSystem where
  sha : Digest
  target : Text
  ownerOf : Text → Text
  owner_ne_nil : ∀ branch, ownerOf branch ≠ []
  known : Text → Prop
  ownerKnown : ∀ branch, known (ownerOf branch)
  collisionFree : CollisionFree sha known
  tree : FileTree
  recs : RecordBook
  ledger : Ledger sha known tree recs

namespace MergeSystem

variable (sys : MergeSystem)

/- An export in merge-request mode, of paths that are text. -/
structure FeatureExport extends Attempt where
  isFeature : pushBranch ≠ sys.target
  owned : content.cfg.pruneOwner = sys.ownerOf pushBranch
  text : ∀ p ∈ pruneKeepSet content.cfg (content.files.map FileEntry.path), Text.IsText p

/-
  What happens: an export, a merge of a pushed branch, the removal of a branch, a process that
  starts without a mirror.
-/
inductive MergeEvent where
  | attempt (a : sys.FeatureExport)
  | merge (branch : Text)
  | drop (branch : Text)
  | restart

def coldMirror : Mirror where
  warm := false
  head := []
  refs := ∅
  index := ∅
  worktree := ∅

def start : World where
  mirror := coldMirror
  remote := AList.singleton sys.target ⟨0, sys.tree, []⟩
  nextId := 1

def mergeCommit (owner : Text) (id : Nat) (target branch : Commit) : Commit where
  id := id
  tree := mergeTrees sys.sha owner target.tree branch.tree
  ancestors := target.id :: branch.id :: (target.ancestors ++ branch.ancestors)

/- The target and a feature branch to be merged into it. -/
def mergePair (w : World) (branch : Text) : Option (Commit × Commit) :=
  if branch = sys.target then none
  else
    match w.remote.lookup sys.target, w.remote.lookup branch with
    | some target, some tip => some (target, tip)
    | _, _ => none

def step (w : World) : sys.MergeEvent → World
  | .attempt a => (exportRemoteInWorkdir sys.sha sys.target w a.toAttempt).1
  | .merge branch =>
    match sys.mergePair w branch with
    | none => w
    | some (target, tip) =>
      { w with
        remote :=
          w.remote.insert sys.target (sys.mergeCommit (sys.ownerOf branch) w.nextId target tip)
        nextId := w.nextId + 1 }
  | .drop branch =>
    if branch = sys.target then w
    else { w with remote := w.remote.erase branch }
  | .restart => { w with mirror := coldMirror }

/- The records of the target load and list each path once. -/
def TargetInOrder (w : World) : Prop :=
  ∃ target loaded, w.remote.lookup sys.target = some target ∧
    loadPruneRecords sys.sha target.tree = .ok loaded ∧ loaded.SingleClaims

/- No open branch of another owner has a path of the merged record on its record. -/
def claimsApart (w : World) (branch : Text) (tip : Commit) : Bool :=
  w.tips.all fun (other, c) =>
    decide (other = sys.target ∨ sys.ownerOf other = sys.ownerOf branch) ||
      (recordedPaths sys.sha tip.tree (sys.ownerOf branch)).all fun p =>
        decide (p ∉ recordedPaths sys.sha c.tree (sys.ownerOf other))

/-
  A branch is merged when no other open branch claims a path of its record, and its record leaves
  the record files within their bounds.
-/
def mergesApart (w : World) : sys.MergeEvent → Bool
  | .merge branch =>
    match sys.mergePair w branch with
    | none => true
    | some (target, tip) =>
      sys.claimsApart w branch tip &&
        metadataFits (mergeTrees sys.sha (sys.ownerOf branch) target.tree tip.tree)
  | _ => true

/-
  The target's records are `recs`. What feature branches have from others comes from there, and what
  they have of their own is free there.
-/
structure InStep (w : World) (target : Commit) (recs : RecordBook) : Prop where
  onRemote : w.remote.lookup sys.target = some target
  ledger : Ledger sys.sha sys.known target.tree recs
  branches : ∀ branch c, branch ≠ sys.target → w.Tip branch c →
      ∃ own, Ledger sys.sha sys.known c.tree own ∧ Extends (sys.ownerOf branch) recs own ∧
        Free (sys.ownerOf branch) recs own

variable {sys} {w : World} {target : Commit} {recs : RecordBook}

/- A branch that is at the target has its records. -/
theorem InStep.onTarget (hInv : sys.InStep w target recs) {owner : Text} :
    Ledger sys.sha sys.known target.tree recs ∧ Extends owner recs recs ∧ Free owner recs recs := by
  refine ⟨hInv.ledger, fun o hO _ => hO, fun paths o paths' p hOwn hNe hOther hP' hP => ?_⟩
  exact hNe (hInv.ledger.single o owner paths' paths p hOther hOwn hP' hP)

theorem inStep_attempt (hInv : sys.InStep w target recs) (a : sys.FeatureExport) :
    sys.InStep (sys.step w (.attempt a)) target recs := by
  have hOwner : a.content.cfg.pruneOwner ≠ [] := by
    rw [a.owned]
    exact sys.owner_ne_nil _
  have hKnown : sys.known a.content.cfg.pruneOwner := by
    rw [a.owned]
    exact sys.ownerKnown _
  have hExport := @exportRemoteInWorkdir_tips sys.sha
  rcases hExport hOwner a.isFeature hInv.onRemote with ⟨hKept, hTips⟩
  refine ⟨hKept, hInv.ledger, ?_⟩
  intro branch c hBranch hTip
  rcases hTips branch c hBranch hTip with hOld | ⟨hPush, hNew⟩
  · exact hInv.branches branch c hBranch hOld
  · rcases hNew with hTarget | ⟨⟨snap⟩⟩
    · rw [hTarget]
      exact ⟨recs, hInv.onTarget⟩
    · have hBase : ∃ base,
          Ledger sys.sha sys.known snap.base.tree base ∧
            Extends (sys.ownerOf a.pushBranch) recs base ∧
            Free (sys.ownerOf a.pushBranch) recs base := by
        rcases snap.from_ with hEq | hLocal
        · rw [hEq]
          exact ⟨recs, hInv.onTarget⟩
        · exact hInv.branches _ _ a.isFeature (.inr hLocal)
      rcases hBase with ⟨base, hLedger, hExtends, hFree⟩
      rcases snap.book sys.collisionFree hKnown hOwner a.text hLedger with
        ⟨own, hOwn, hSame, hRecord⟩
      rw [hPush]
      rw [← a.owned] at hExtends hFree ⊢
      refine ⟨own, hOwn, ?_, snap.free_book sys.collisionFree hInv.ledger hFree
        (fun hOff => hSame _ (.inr hOff)) hRecord⟩
      intro o hO hNe
      apply hExtends o _ hNe
      rw [mem_keys_iff_exists] at hO ⊢
      rw [← hSame o (.inl hNe)]
      exact hO

theorem mergePair_eq_some {branch : Text} {tip : Commit}
    (hPair : sys.mergePair w branch = some (target, tip)) :
    branch ≠ sys.target ∧ w.remote.lookup sys.target = some target ∧
      w.remote.lookup branch = some tip := by
  unfold mergePair at hPair
  split_ifs at hPair with hSelf
  split at hPair
  · rename_i target' tip' hTarget hTip
    rcases Prod.mk.inj (Option.some.inj hPair) with ⟨hEq, hEq'⟩
    rw [← hEq, ← hEq']
    exact ⟨hSelf, hTarget, hTip⟩
  · cases hPair

/- Merging leaves the records on other branches free. -/
theorem free_of_claimsApart {branch other : Text} {tip c : Commit} {recs' own theirs : RecordBook}
    (hApart : sys.claimsApart w branch tip = true)
    (hOwn : Ledger sys.sha sys.known tip.tree own) (hOther : other ≠ sys.target)
    (hTip : w.Tip other c) (hTheirs : Ledger sys.sha sys.known c.tree theirs)
    (hFree : Free (sys.ownerOf other) recs theirs)
    (hMerged : ∀ o paths, recs'.lookup o = some paths → recs.lookup o = some paths ∨
      o = sys.ownerOf branch ∧ own.lookup (sys.ownerOf branch) = some paths) :
    Free (sys.ownerOf other) recs' theirs := by
  intro paths o paths' p hRecord hNe hListed hP' hP
  rcases hMerged o paths' hListed with hOld | ⟨rfl, hNew⟩
  · exact hFree paths o paths' p hRecord hNe hOld hP' hP
  · have hAll := List.all_eq_true.mp hApart (other, c) (World.mem_tips hTip)
    rw [Bool.or_eq_true, decide_eq_true_eq, List.all_eq_true] at hAll
    have hClaim := hAll.resolve_left (not_or.mpr ⟨hOther, Ne.symm hNe⟩) p
      ((mem_recordedPaths sys.collisionFree hOwn).mpr ⟨paths', hNew, hP'⟩)
    rw [decide_eq_true_eq] at hClaim
    exact hClaim ((mem_recordedPaths sys.collisionFree hTheirs).mpr ⟨paths, hRecord, hP⟩)

theorem inStep_merge (hInv : sys.InStep w target recs) {branch : Text}
    (hMerge : sys.mergesApart w (.merge branch) = true) :
    ∃ target' recs', sys.InStep (sys.step w (.merge branch)) target' recs' := by
  unfold mergesApart at hMerge
  unfold step
  dsimp only at hMerge ⊢
  cases hPair : sys.mergePair w branch with
  | none => exact ⟨target, recs, hInv⟩
  | some pair =>
    rcases pair with ⟨target', tip⟩
    rw [hPair, Bool.and_eq_true] at hMerge
    rcases mergePair_eq_some hPair with ⟨hSelf, hTarget, hTip⟩
    have hEq : target = target' := Option.some.inj (hInv.onRemote.symm.trans hTarget)
    subst hEq
    rcases hInv.branches branch tip hSelf (.inl hTip) with ⟨own, hOwn, hExtends, hFree⟩
    rcases ledger_mergeTrees sys.collisionFree (sys.ownerKnown branch) hInv.ledger hOwn hExtends
      hFree hMerge.2 with ⟨recs', hNext, hMore, hMerged⟩
    refine ⟨sys.mergeCommit (sys.ownerOf branch) w.nextId
      target tip, recs', AList.lookup_insert w.remote, hNext, ?_⟩
    intro other c hOther hTipOf
    have hOld : w.Tip other c := by
      rcases hTipOf with hRemote | hLocal
      · rw [AList.lookup_insert_ne hOther] at hRemote
        exact .inl hRemote
      · exact .inr hLocal
    rcases hInv.branches other c hOther hOld with ⟨theirs, hTheirs, hFrom, hTheirsFree⟩
    exact ⟨theirs, hTheirs, fun o hO hNe => hMore o (hFrom o hO hNe),
      free_of_claimsApart hMerge.1 hOwn hOther hOld hTheirs hTheirsFree hMerged⟩

theorem inStep_step (hInv : sys.InStep w target recs) {e : sys.MergeEvent}
    (hMerge : sys.mergesApart w e = true) :
    ∃ target' recs', sys.InStep (sys.step w e) target' recs' := by
  cases e with
  | attempt a => exact ⟨target, recs, inStep_attempt hInv a⟩
  | merge branch => exact inStep_merge hInv hMerge
  | drop branch =>
    unfold step
    dsimp only
    split_ifs with hSelf
    · exact ⟨target, recs, hInv⟩
    · refine ⟨target, recs, ?_, hInv.ledger, ?_⟩
      · rw [AList.lookup_erase_ne (Ne.symm hSelf)]
        exact hInv.onRemote
      · intro other c hOther hTip
        apply hInv.branches other c hOther
        rcases hTip with hRemote | hLocal
        · left
          by_cases hEq : other = branch
          · rw [hEq, AList.lookup_erase] at hRemote
            cases hRemote
          · rw [AList.lookup_erase_ne hEq] at hRemote
            exact hRemote
        · exact .inr hLocal
  | restart =>
    refine ⟨target, recs, hInv.onRemote, hInv.ledger, ?_⟩
    intro other c hOther hTip
    apply hInv.branches other c hOther
    rcases hTip with hRemote | hLocal
    · exact .inl hRemote
    · cases hLocal

theorem inStep_start (sys : MergeSystem) : sys.InStep sys.start ⟨0, sys.tree, []⟩ sys.recs := by
  have hLookup : ∀ branch,
      sys.start.remote.lookup branch =
        if branch = sys.target then some ⟨0, sys.tree, []⟩
        else none := by
    intro branch
    unfold start
    rw [← AList.insert_empty, GoMap.lookup_insert_ite, AList.lookup_empty]
  refine ⟨?_, sys.ledger, ?_⟩
  · rw [hLookup, if_pos rfl]
  · intro branch c hBranch hTip
    rcases hTip with hRemote | hLocal
    · rw [hLookup, if_neg hBranch] at hRemote
      cases hRemote
    · cases hLocal

end MergeSystem

def pairSystem : MergeSystem where
  sha := paddedDigest
  target := "main"
  ownerOf branch := if branch = ("a" : Text) then "a" else "b"
  owner_ne_nil branch := by
    split_ifs
    · exact List.cons_ne_nil _ _
    · exact List.cons_ne_nil _ _
  known o := o ∈ [("a" : Text), "b"]
  ownerKnown branch := by
    split_ifs
    · exact List.mem_cons_self
    · exact List.mem_cons_of_mem _ List.mem_cons_self
  collisionFree := by
    have hDigests : ∀ o ∈ [("a" : Text), "b"],
        ∀ o' ∈ [("a" : Text), "b"], paddedDigest.hex o = paddedDigest.hex o' → o = o' := by
      decide
    exact fun o o' hO hO' => hDigests o hO o' hO'
  tree := ∅
  recs := ∅
  ledger := ledger_empty _ _

def featureOf (branch path : Text) (hBranch : branch = "a" ∨ branch = "b")
    (hPath : validatePrunePath path = .ok ()) (hText : Text.IsText path) :
    pairSystem.FeatureExport where
  pushBranch := branch
  forcePush := false
  content :=
    { cfg :=
        { pruneOwner := pairSystem.ownerOf branch
          prune := true
          pruneKeepPaths := []
          pruneClaimPaths := [] }
      files := [{ path := path, data := "row" }]
      nodup := List.nodup_singleton _
      valid := List.forall_mem_singleton.mpr hPath
      kept := .inl (pairSystem.owner_ne_nil branch) }
  transportOk := true
  leftover := ∅
  pushes := [⟨true, true, true, true, true, true⟩]
  isFeature := by
    rcases hBranch with hEq | hEq
    · rw [hEq]
      decide
    · rw [hEq]
      decide
  owned := rfl
  text := List.forall_mem_singleton.mpr hText

end Git
end Sink
end Kollect
