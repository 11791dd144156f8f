import Kollect.Foundation.Run
import Kollect.Sink.Git.Prune

/-
  Exports through a mirror of the remote (`sink/git/export.go`, `sink/git/mirror.go`).

  The mirror of a clone branch is kept between exports: the first export clones it, the next ones
  fetch the clone branch over its local ref and keep every other local branch as it is. An export
  checks out its push branch, writes its files, and returns without a push when nothing changed;
  otherwise it commits and pushes, and checks in the end that the pushed branch contains its commit.

  Events are export attempts, with what the transport does at each step, and changes others make to
  the remote.

  The clean return is justified when the local push branch is the remote one. That is so when it is
  the clone branch. For another branch a commit whose push failed makes the next attempt look clean.

  Key theorems include:
    * `exportRemoteInWorkdir_spec`
    * `attempts_deliver`
-/

namespace Kollect
namespace Sink
namespace Git

----
-- The Mirror And The Remote
----

/- A commit: its hash, its tree, the hashes before it. -/
structure Commit where
  id : Nat
  tree : FileTree
  ancestors : List Nat

/- The snapshot is the commit or an ancestor of it. -/
def Commit.contains (tip snapshot : Commit) : Bool :=
  decide (tip.id = snapshot.id) || snapshot.id ∈ tip.ancestors

/- A local clone with its branches, index and files. -/
structure Mirror where
  warm : Bool
  head : Text
  refs : GoMap Text Commit
  index : FileTree
  worktree : FileTree

/- The mirror, the branches of the remote, a fresh hash. -/
structure World where
  mirror : Mirror
  remote : GoMap Text Commit
  nextId : Nat

/-
  What the transport does to one try of a push: whether the push reaches the remote and its answer
  comes back, whether the fetch and the pull of a recovery succeed, and the same of the push after
  them.
-/
structure PushTry where
  reached : Bool
  acked : Bool
  fetchOk : Bool
  pullOk : Bool
  retryReached : Bool
  retryAcked : Bool

/- One export attempt. `leftover` is what a write that fails half-way leaves in the worktree. -/
structure Attempt where
  pushBranch : Text
  forcePush : Bool
  content : ValidatedExport
  transportOk : Bool
  leftover : FileTree
  pushes : List PushTry

def Attempt.paths (a : Attempt) : List Text := a.content.files.map FileEntry.path

----
-- Opening And Checking Out
----

/-
  Clone a cold mirror or fetch a warm one. A remote without the branch is taken for an empty one
  when cloning and is an error when fetching. The flag says that HEAD is unborn.
-/
def openOrWarmMirror (cloneBranch : Text) (w : World)
    (transportOk : Bool) : Option (Mirror × Bool) :=
  if transportOk = false then none
  else
    match w.mirror.warm, w.remote.lookup cloneBranch with
    | false, some tip =>
      some
        ({ warm := true
           head := cloneBranch
           refs := AList.singleton cloneBranch tip
           index := tip.tree
           worktree := tip.tree }, false)
    | false, none =>
      some
        ({ warm := true
           head := "master"
           refs := ∅
           index := ∅
           worktree := ∅ }, true)
    | true, some tip =>
      let refs := w.mirror.refs.insert cloneBranch tip
      some ({ w.mirror with refs := refs }, (refs.lookup w.mirror.head).isNone)
    | true, none => none

/- A tracked file differs from what is staged. -/
def Mirror.unstaged (m : Mirror) : Bool :=
  m.index.keys.any fun p => decide (m.worktree.lookup p ≠ m.index.lookup p)

/-
  The tip the push branch is checked out at: the branch as it is, or a new one at the clone branch,
  or at HEAD.
-/
def Mirror.checkoutTip (m : Mirror) (cloneBranch pushBranch : Text) : Option Commit :=
  match m.refs.lookup pushBranch with
  | some tip => some tip
  | none =>
    match m.refs.lookup cloneBranch with
    | some tip => some tip
    | none => m.refs.lookup m.head

/- The branch is set before unstaged changes are refused. -/
def checkoutMirrorBranch (cloneBranch pushBranch : Text) (m : Mirror) : Mirror × Option Commit :=
  match m.checkoutTip cloneBranch pushBranch with
  | none => (m, none)
  | some tip =>
    let m :=
      { m with
        refs := m.refs.insert pushBranch tip
        head := pushBranch }
    if m.unstaged then (m, none)
    else ({ m with index := tip.tree, worktree := tip.tree }, some tip)

variable (sha : Digest) (cloneBranch : Text)

/- Records of the merge target that claim a path. -/
def checkMergeTargetClaims (m : Mirror) (a : Attempt) : Except PruneError Unit :=
  if a.content.cfg.pruneOwner = [] ∨ a.pushBranch = cloneBranch then .ok ()
  else
    match m.refs.lookup cloneBranch with
    | none => .ok ()
    | some target => do
        let loaded ← loadPruneRecords sha target.tree
        Fallible.checkAll (checkForeignClaim a.content.cfg loaded.owners)
          (Text.sort (pruneKeepSet a.content.cfg a.paths ++ a.content.cfg.pruneClaimPaths))

----
-- Staging
----

/- With prune on every change is staged. -/
def stageChanges (index worktree : FileTree) (prune : Bool) (paths : List Text) : FileTree :=
  if prune then worktree
  else
    paths.foldl
      (fun index p =>
        match worktree.lookup p with
        | some content => index.insert p content
        | none => index)
      index

/- The trees have the same files. -/
def sameTree (t t' : FileTree) : Bool :=
  (t.keys ++ t'.keys).all fun p => decide (t.lookup p = t'.lookup p)

----
-- Pushing
----

inductive PushOutcome where
  | done
  | rejected
  | failed
deriving DecidableEq, Repr

/- The answer of the remote, or its loss. -/
def answered (acked : Bool) (o : PushOutcome) : PushOutcome := if acked then o else .failed

/- One push of a commit to a branch of the remote. -/
def pushOnce (force : Bool) (remote : GoMap Text Commit) (branch : Text)
    (c : Commit) (reached acked : Bool) : GoMap Text Commit × PushOutcome :=
  if reached = false then (remote, .failed)
  else
    match remote.lookup branch with
    | none => (remote.insert branch c, answered acked .done)
    | some old =>
      if old.id = c.id then (remote, answered acked .done)
      else if old.id ∈ c.ancestors ∨ force = true then
        (remote.insert branch c, answered acked .done)
      else (remote, answered acked .rejected)

/- Local and remote branches while a push is retried. -/
structure Branches where
  refs : GoMap Text Commit
  remote : GoMap Text Commit

/-
  A rejected push under the Commit policy fetches the remote tip over the local branch and pushes
  that. The pull in between finds nothing to merge; when it fails the branch is already moved.
-/
def recoverPush (force : Bool) (branch : Text) (b : Branches)
    (try_ : PushTry) : Branches × PushOutcome :=
  if try_.fetchOk = false then (b, .failed)
  else
    match b.remote.lookup branch with
    | none => (b, .failed)
    | some tip =>
      let refs := b.refs.insert branch tip
      if try_.pullOk = false then (⟨refs, b.remote⟩, .failed)
      else
        let (remote, outcome) :=
          pushOnce force b.remote branch tip try_.retryReached try_.retryAcked
        (⟨refs, remote⟩, outcome)

/- One try, with its recovery. -/
def pushTry (force forcePush : Bool) (branch : Text) (b : Branches)
    (try_ : PushTry) : Branches × PushOutcome :=
  match b.refs.lookup branch with
  | none => (b, .failed)
  | some c =>
    let (remote, outcome) := pushOnce force b.remote branch c try_.reached try_.acked
    if outcome = .rejected ∧ forcePush = false then recoverPush force branch ⟨b.refs, remote⟩ try_
    else (⟨b.refs, remote⟩, outcome)

/- Retry until a try succeeds or no try is left. -/
def pushRetries (force forcePush : Bool) (branch : Text) : Branches → List PushTry → Branches × Bool
  | b, [] => (b, false)
  | b, try_ :: tries =>
    match pushTry force forcePush branch b try_ with
    | (b, .done) => (b, true)
    | (b, _) => pushRetries force forcePush branch b tries

/- The pushed branch contains the snapshot. -/
def verifySnapshotDelivered (refs : GoMap Text Commit) (branch : Text) (snapshot : Commit) : Bool :=
  match refs.lookup branch with
  | none => false
  | some tip => tip.contains snapshot

----
-- The Export
----

variable (w : World)

def commitAndPush (a : Attempt) (emptyRemote : Bool) (tip : Commit) : World × Bool :=
  let snapshot : Commit :=
    { id := w.nextId, tree := w.mirror.index, ancestors := tip.id :: tip.ancestors }
  let (b, pushed) := pushRetries (emptyRemote || a.forcePush) a.forcePush a.pushBranch
      ⟨w.mirror.refs.insert a.pushBranch snapshot, w.remote⟩ a.pushes
  ({ mirror := { w.mirror with refs := b.refs }
     remote := b.remote
     nextId := w.nextId + 1 }, pushed && verifySnapshotDelivered b.refs a.pushBranch snapshot)

/-
  The attempt after its branch is checked out at `tip`. A clean status returns before the commit; an
  index that is the tip's tree cannot be committed.
-/
def exportOnBranch (a : Attempt) (emptyRemote : Bool) (m : Mirror) (tip : Commit) : World × Bool :=
  match checkMergeTargetClaims sha cloneBranch m a with
  | .error _ => ({ w with mirror := m }, false)
  | .ok _ =>
    match writeExportFiles sha m.worktree a.content.cfg a.content.files with
    | .error _ => ({ w with mirror := { m with worktree := a.leftover } }, false)
    | .ok change =>
      let index := stageChanges m.index change.tree a.content.cfg.prune a.paths
      let w :=
        { w with
          mirror :=
            { m with
              index := index
              worktree := change.tree } }
      if sameTree tip.tree index then (w, sameTree index change.tree)
      else commitAndPush w a emptyRemote tip

/- One attempt, and whether it returns without an error. -/
def exportRemoteInWorkdir (a : Attempt) : World × Bool :=
  match openOrWarmMirror cloneBranch w a.transportOk with
  | none => (w, false)
  | some (opened, emptyRemote) =>
    match checkoutMirrorBranch cloneBranch a.pushBranch opened with
    | (m, none) => ({ w with mirror := m }, false)
    | (m, some tip) => exportOnBranch sha cloneBranch w a emptyRemote m tip

----
-- Runs
----

/- What happens to the mirror and the remote. -/
inductive MirrorEvent where
  | attempt (a : Attempt)
  | foreignPush (branch : Text) (tree : FileTree) (onTop : Bool)
  | foreignDelete (branch : Text)

/- Another writer's commit, on the tip or on nothing. -/
def foreignCommit (branch : Text) (tree : FileTree) (onTop : Bool) : Commit where
  id := w.nextId
  tree := tree
  ancestors :=
    match onTop, w.remote.lookup branch with
    | true, some tip => tip.id :: tip.ancestors
    | _, _ => []

def World.step : MirrorEvent → World
  | .attempt a => (exportRemoteInWorkdir sha cloneBranch w a).1
  | .foreignPush branch tree onTop =>
    { w with
      remote := w.remote.insert branch (foreignCommit w branch tree onTop)
      nextId := w.nextId + 1 }
  | .foreignDelete branch => { w with remote := w.remote.erase branch }

/- A branch of the remote has every file of the export. -/
def RemoteHas (remote : GoMap Text Commit) (branch : Text) (files : List FileEntry) : Prop :=
  ∃ tip, remote.lookup branch = some tip ∧ HasFiles tip.tree files

def Delivers : MirrorEvent → Prop
  | .attempt a =>
    (exportRemoteInWorkdir sha cloneBranch w a).2 = true →
      RemoteHas (exportRemoteInWorkdir sha cloneBranch w a).1.remote a.pushBranch a.content.files
  | _ => True

/- The local tip of a branch; a cold mirror has none. -/
def World.localTip (branch : Text) : Option Commit :=
  if w.mirror.warm then w.mirror.refs.lookup branch else none

/- The tree an attempt on another branch starts from. -/
def World.baseTree (cloneBranch pushBranch : Text) : Option FileTree :=
  match w.localTip pushBranch with
  | some tip => some tip.tree
  | none => (w.remote.lookup cloneBranch).map Commit.tree

/-
  The attempt pushes to the clone branch, or the local push branch is the remote one, or the tree
  the attempt starts from lacks one of its files.
-/
def StartsSound (cloneBranch : Text) (w : World) : MirrorEvent → Prop
  | .attempt a =>
    a.pushBranch = cloneBranch ∨
    (∃ tip, w.localTip a.pushBranch = some tip ∧ w.remote.lookup a.pushBranch = some tip) ∨
    ∀ base, w.baseTree cloneBranch a.pushBranch = some base → ¬ HasFiles base a.content.files
  | _ => True

----
-- Fresh Hashes
----

/- The commit and what it descends from are older. -/
def Commit.Before (c : Commit) (n : Nat) : Prop := c.id < n ∧ ∀ a ∈ c.ancestors, a < n

/- Every branch in the map points to an older commit. -/
def AllBefore (refs : GoMap Text Commit) (n : Nat) : Prop :=
  ∀ branch c, refs.lookup branch = some c → c.Before n

def World.Fresh : Prop := AllBefore w.mirror.refs w.nextId ∧ AllBefore w.remote w.nextId

variable {c : Commit}

theorem Commit.Before.mono {n m : Nat} (hC : c.Before n) (hLe : n ≤ m) : c.Before m :=
  ⟨hC.1.trans_le hLe, fun a hA => (hC.2 a hA).trans_le hLe⟩

variable {tip : Commit}

theorem Commit.Before.succ {n : Nat} (hTip : tip.Before n) (tree : FileTree) :
    (Commit.mk n tree (tip.id :: tip.ancestors)).Before (n + 1) := by
  refine ⟨Nat.lt_succ_self n, ?_⟩
  intro a hA
  rcases List.mem_cons.mp hA with rfl | hA
  · exact Nat.lt_succ_of_lt hTip.1
  · exact Nat.lt_succ_of_lt (hTip.2 a hA)

variable {refs : GoMap Text Commit}

theorem AllBefore.mono {n m : Nat} (hAll : AllBefore refs n) (hLe : n ≤ m) : AllBefore refs m :=
  fun branch c hC => (hAll branch c hC).mono hLe

theorem AllBefore.insert {n : Nat} (hAll : AllBefore refs n) {branch : Text} (hC : c.Before n) :
    AllBefore (refs.insert branch c) n := by
  intro branch' c' hLookup
  rw [GoMap.lookup_insert_ite] at hLookup
  split_ifs at hLookup
  · obtain rfl := Option.some.inj hLookup
    exact hC
  · exact hAll branch' c' hLookup

theorem AllBefore.erase {n : Nat} (hAll : AllBefore refs n) (branch : Text) :
    AllBefore (refs.erase branch) n := by
  intro branch' c' hLookup
  rw [GoMap.lookup_erase_ite] at hLookup
  split_ifs at hLookup
  exact hAll branch' c' hLookup

/- A commit that does not have the fresh hash lacks it. -/
theorem Commit.Before.not_contains {snapshot : Commit} {n : Nat} (hC : c.Before n)
    (hId : snapshot.id = n) : c.contains snapshot = false := by
  have hNe : c.id ≠ snapshot.id := by
    rw [hId]
    exact hC.1.ne
  have hNot : snapshot.id ∉ c.ancestors := by
    intro hMem
    exact absurd (hC.2 _ hMem) (by rw [hId]; exact lt_irrefl n)
  simp [Commit.contains, hNe, hNot]

----
-- Pushing A Snapshot
----

section Push

variable {snapshot : Commit} {n : Nat} (force forcePush : Bool) (branch : Text)

/- Every branch points to the snapshot or to older work. -/
def OldOrSnapshot (snapshot : Commit) (n : Nat) (refs : GoMap Text Commit) : Prop :=
  ∀ branch c, refs.lookup branch = some c → c = snapshot ∨ c.Before n

theorem OldOrSnapshot.insert {branch : Text} {refs : GoMap Text Commit}
    (hRefs : OldOrSnapshot snapshot n refs) {c : Commit} (hC : c = snapshot ∨ c.Before n) :
    OldOrSnapshot snapshot n (refs.insert branch c) := by
  intro branch' c' hLookup
  rw [GoMap.lookup_insert_ite] at hLookup
  split_ifs at hLookup
  · obtain rfl := Option.some.inj hLookup
    exact hC
  · exact hRefs branch' c' hLookup

theorem answered_eq_done {acked : Bool} {o : PushOutcome} (hDone : answered acked o = .done) :
    o = .done := by
  unfold answered at hDone
  split_ifs at hDone
  exact hDone

theorem pushOnce_spec (reached acked : Bool) {remote : GoMap Text Commit}
    {c : Commit} (hRemote : OldOrSnapshot snapshot n remote) (hC : c = snapshot ∨ c.Before n) :
    OldOrSnapshot snapshot n (pushOnce force remote branch c reached acked).1 ∧
      ((pushOnce force remote branch c reached acked).2 = .done → ∃ tip,
          (pushOnce force remote branch c reached acked).1.lookup branch = some tip ∧
          tip.id = c.id) := by
  have hInserted : ∃ tip, (remote.insert branch c).lookup branch = some tip ∧ tip.id = c.id :=
    ⟨c, AList.lookup_insert remote, rfl⟩
  unfold pushOnce
  split_ifs with hReached
  · exact ⟨hRemote, by simp⟩
  · split
    · exact ⟨hRemote.insert hC, fun _ => hInserted⟩
    · rename_i old hOld
      split_ifs with hSame hForward
      · exact ⟨hRemote, fun _ => ⟨old, hOld, hSame⟩⟩
      · exact ⟨hRemote.insert hC, fun _ => hInserted⟩
      · refine ⟨hRemote, fun hDone => ?_⟩
        cases answered_eq_done hDone

/- Both sides of a push being retried are old or snapshot. -/
def Branches.Sound (b : Branches) (snapshot : Commit) (n : Nat) : Prop :=
  OldOrSnapshot snapshot n b.refs ∧ OldOrSnapshot snapshot n b.remote

/- The remote tip is the local tip, by hash. -/
def Branches.Agree (b : Branches) (branch : Text) : Prop :=
  ∃ c tip, b.refs.lookup branch = some c ∧ b.remote.lookup branch = some tip ∧ tip.id = c.id

variable {b : Branches}

theorem recoverPush_spec (try_ : PushTry) (hB : b.Sound snapshot n) :
    (recoverPush force branch b try_).1.Sound snapshot n ∧
      ((recoverPush force branch b try_).2 = .done →
        (recoverPush force branch b try_).1.Agree branch) := by
  unfold recoverPush
  cases hTip : b.remote.lookup branch with
  | none =>
    rw [ite_self]
    exact ⟨hB, by simp⟩
  | some tip =>
    have hOld := hB.2 branch tip hTip
    dsimp only
    split_ifs with hFetch hPull
    · exact ⟨hB, by simp⟩
    · exact ⟨⟨hB.1.insert hOld, hB.2⟩, by simp⟩
    · obtain ⟨hRemote, hDone⟩ := pushOnce_spec force branch
        try_.retryReached try_.retryAcked hB.2 hOld
      refine ⟨⟨hB.1.insert hOld, hRemote⟩, fun h => ?_⟩
      obtain ⟨tip', hTip', hId⟩ := hDone h
      exact ⟨tip, tip', AList.lookup_insert b.refs, hTip', hId⟩

theorem pushTry_spec (try_ : PushTry) (hB : b.Sound snapshot n) :
    (pushTry force forcePush branch b try_).1.Sound snapshot n ∧
      ((pushTry force forcePush branch b try_).2 = .done →
        (pushTry force forcePush branch b try_).1.Agree branch) := by
  unfold pushTry
  cases hC : b.refs.lookup branch with
  | none => exact ⟨hB, by simp⟩
  | some c =>
    obtain ⟨hRemote, hDone⟩ := pushOnce_spec force branch
      try_.reached try_.acked hB.2 (hB.1 branch c hC)
    dsimp only
    split_ifs with hRejected
    · exact recoverPush_spec force branch try_ ⟨hB.1, hRemote⟩
    · refine ⟨⟨hB.1, hRemote⟩, fun h => ?_⟩
      obtain ⟨tip, hTip, hId⟩ := hDone h
      exact ⟨c, tip, hC, hTip, hId⟩

theorem pushRetries_spec (tries : List PushTry) (hB : b.Sound snapshot n) :
    (pushRetries force forcePush branch b tries).1.Sound snapshot n ∧
      ((pushRetries force forcePush branch b tries).2 = true →
        (pushRetries force forcePush branch b tries).1.Agree branch) := by
  induction tries generalizing b with
  | nil => exact ⟨hB, by simp [pushRetries]⟩
  | cons try_ tries ih =>
    obtain ⟨hNext, hDone⟩ := pushTry_spec force forcePush branch try_ hB
    rw [pushRetries]
    rcases hTry : pushTry force forcePush branch b try_ with ⟨b', outcome⟩
    rw [hTry] at hNext hDone
    cases outcome with
    | done => exact ⟨hNext, fun _ => hDone rfl⟩
    | rejected => exact ih hNext
    | failed => exact ih hNext

/-
  A push that is verified has put the snapshot itself on the remote: no older commit contains it.
-/
theorem remote_of_verified {branch : Text} (hId : snapshot.id = n) (hB : b.Sound snapshot n)
    (hAgree : b.Agree branch) (hVerified : verifySnapshotDelivered b.refs branch snapshot = true) :
    b.remote.lookup branch = some snapshot := by
  obtain ⟨c, tip, hC, hTip, hSame⟩ := hAgree
  rw [verifySnapshotDelivered, hC] at hVerified
  have hSnapshot : c = snapshot := by
    rcases hB.1 branch c hC with hEq | hOld
    · exact hEq
    · have hLacks := hOld.not_contains hId
      simp only at hVerified
      rw [hLacks] at hVerified
      cases hVerified
  rcases hB.2 branch tip hTip with rfl | hOld
  · exact hTip
  · have hLt := hOld.1
    rw [hSame, hSnapshot, hId] at hLt
    exact absurd hLt (lt_irrefl n)

end Push

----
-- Opening, Checking Out And Staging
----

/- The branches of a mirror after it was opened. -/
structure Opened (cloneBranch : Text) (w : World) (m : Mirror) : Prop where
  clone : m.refs.lookup cloneBranch = w.remote.lookup cloneBranch
  others : ∀ branch, branch ≠ cloneBranch → m.refs.lookup branch = w.localTip branch
  unborn : w.remote.lookup cloneBranch = none → ∀ branch, m.refs.lookup branch = none
  fresh : w.Fresh → AllBefore m.refs w.nextId

variable {cloneBranch : Text} {w : World} {m : Mirror}

theorem opened_of_openOrWarmMirror {transportOk emptyRemote : Bool}
    (hOpen : openOrWarmMirror cloneBranch w transportOk = some (m, emptyRemote)) :
    Opened cloneBranch w m := by
  unfold openOrWarmMirror at hOpen
  split_ifs at hOpen with hTransport
  cases hWarm : w.mirror.warm with
  | false =>
    have hLocal : ∀ branch, w.localTip branch = none := by simp [World.localTip, hWarm]
    cases hTip : w.remote.lookup cloneBranch with
    | none =>
      simp only [hWarm, hTip, Option.some.injEq, Prod.mk.injEq] at hOpen
      obtain ⟨rfl, -⟩ := hOpen
      exact ⟨by simp [hTip], by simp [hLocal], by simp, fun _ => by simp [AllBefore]⟩
    | some tip =>
      simp only [hWarm, hTip, Option.some.injEq, Prod.mk.injEq] at hOpen
      obtain ⟨rfl, -⟩ := hOpen
      have hSingleton : ∀ branch,
          (AList.singleton cloneBranch tip : GoMap Text Commit).lookup branch =
            if branch = cloneBranch then some tip
            else none := by
        intro branch
        rw [← AList.insert_empty, GoMap.lookup_insert_ite, AList.lookup_empty]
      refine ⟨?_, ?_, by simp [hTip], ?_⟩
      · rw [hSingleton, if_pos rfl, hTip]
      · intro branch hNe
        rw [hSingleton, if_neg hNe, hLocal]
      · rintro ⟨-, hRemote⟩ branch c hC
        rw [hSingleton] at hC
        split_ifs at hC
        obtain rfl := Option.some.inj hC
        exact hRemote cloneBranch _ hTip
  | true =>
    cases hTip : w.remote.lookup cloneBranch with
    | none => simp [hWarm, hTip] at hOpen
    | some tip =>
      simp only [hWarm, hTip, Option.some.injEq, Prod.mk.injEq] at hOpen
      obtain ⟨rfl, -⟩ := hOpen
      refine ⟨?_, ?_, by simp [hTip], ?_⟩
      · rw [AList.lookup_insert, hTip]
      · intro branch hNe
        rw [AList.lookup_insert_ne hNe, World.localTip, if_pos hWarm]
      · rintro ⟨hRefs, hRemote⟩
        exact hRefs.insert (hRemote cloneBranch tip hTip)

variable {pushBranch : Text}

theorem Opened.checkoutTip (hOpened : Opened cloneBranch w m)
    (hTip : m.checkoutTip cloneBranch pushBranch = some tip) :
    (pushBranch = cloneBranch → w.remote.lookup pushBranch = some tip) ∧
    (pushBranch ≠ cloneBranch → w.baseTree cloneBranch pushBranch = some tip.tree ∧
        ∀ own, w.localTip pushBranch = some own → own = tip) := by
  unfold Mirror.checkoutTip at hTip
  constructor
  · rintro rfl
    rw [hOpened.clone] at hTip
    cases hRemote : w.remote.lookup pushBranch with
    | some tip' =>
      rw [hRemote] at hTip
      exact hTip
    | none => simp [hRemote, hOpened.unborn hRemote] at hTip
  · intro hNe
    rw [hOpened.others pushBranch hNe, hOpened.clone] at hTip
    unfold World.baseTree
    cases hLocal : w.localTip pushBranch with
    | some own =>
      rw [hLocal] at hTip
      obtain rfl := Option.some.inj hTip
      exact ⟨rfl, fun _ h => (Option.some.inj h).symm⟩
    | none =>
      cases hRemote : w.remote.lookup cloneBranch with
      | some tip' =>
        rw [hLocal, hRemote] at hTip
        obtain rfl := Option.some.inj hTip
        exact ⟨rfl, by simp⟩
      | none => simp [hLocal, hRemote, hOpened.unborn hRemote] at hTip

theorem checkoutTip_mem (hTip : m.checkoutTip cloneBranch pushBranch = some tip) :
    ∃ branch, m.refs.lookup branch = some tip := by
  unfold Mirror.checkoutTip at hTip
  split at hTip
  · rename_i tip' hPush
    exact ⟨pushBranch, by rw [hPush, hTip]⟩
  · split at hTip
    · rename_i tip' hClone
      exact ⟨cloneBranch, by rw [hClone, hTip]⟩
    · exact ⟨m.head, hTip⟩

theorem checkoutMirrorBranch_spec {m' : Mirror} {result : Option Commit}
    (hCheckout : checkoutMirrorBranch cloneBranch pushBranch m = (m', result)) {n : Nat}
    (hFresh : AllBefore m.refs n) : AllBefore m'.refs n ∧ ∀ tip, result = some tip →
        m.checkoutTip cloneBranch pushBranch = some tip ∧
          m'.worktree = tip.tree ∧ tip.Before n := by
  unfold checkoutMirrorBranch at hCheckout
  cases hTip : m.checkoutTip cloneBranch pushBranch with
  | none =>
    rw [hTip] at hCheckout
    obtain ⟨rfl, rfl⟩ := Prod.mk.inj hCheckout
    exact ⟨hFresh, by simp⟩
  | some tip =>
    obtain ⟨branch, hBranch⟩ := checkoutTip_mem hTip
    have hBefore := hFresh branch tip hBranch
    rw [hTip] at hCheckout
    dsimp only at hCheckout
    split_ifs at hCheckout
    · obtain ⟨rfl, rfl⟩ := Prod.mk.inj hCheckout
      exact ⟨hFresh.insert hBefore, by simp⟩
    · obtain ⟨rfl, rfl⟩ := Prod.mk.inj hCheckout
      refine ⟨hFresh.insert hBefore, ?_⟩
      rintro tip' hEq
      obtain rfl := Option.some.inj hEq
      exact ⟨rfl, rfl, hBefore⟩

theorem hasFiles_stageChanges (index : FileTree) (prune : Bool) {worktree : FileTree}
    {files : List FileEntry} (hFiles : HasFiles worktree files) :
    HasFiles (stageChanges index worktree prune (files.map FileEntry.path)) files := by
  unfold stageChanges
  split_ifs
  · exact hFiles
  · -- A staged path stays as it is in the worktree.
    have hFold : ∀ (paths : List Text) (index : FileTree)
        (p content : Text), worktree.lookup p = some content →
        (p ∈ paths ∨ index.lookup p = some content) →
        (paths.foldl
          (fun index p =>
            match worktree.lookup p with
            | some content => index.insert p content
            | none => index) index).lookup p =
          some content := by
      intro paths
      induction paths with
      | nil =>
        intro index p content _ hP
        exact hP.resolve_left List.not_mem_nil
      | cons q paths ih =>
        intro index p content hContent hP
        apply ih _ p content hContent
        dsimp only
        by_cases hQ : p = q
        · subst hQ
          right
          rw [hContent]
          exact AList.lookup_insert index
        · rcases hP with hMem | hStaged
          · exact .inl (List.mem_of_ne_of_mem hQ hMem)
          · right
            cases worktree.lookup q with
            | none => exact hStaged
            | some other =>
              rw [AList.lookup_insert_ne hQ]
              exact hStaged
    intro f hF
    exact hFold _ index f.path f.data (hFiles f hF) (.inl (List.mem_map.mpr ⟨f, hF, rfl⟩))

theorem lookup_of_sameTree {t t' : FileTree} (hSame : sameTree t t' = true) (p : Text) :
    t.lookup p = t'.lookup p := by
  rw [sameTree, List.all_eq_true] at hSame
  by_cases hMem : p ∈ t.keys ++ t'.keys
  · exact decide_eq_true_eq.mp (hSame p hMem)
  · rw [List.mem_append, not_or] at hMem
    rw [AList.lookup_eq_none.mpr hMem.1, AList.lookup_eq_none.mpr hMem.2]

----
-- Delivery
----

theorem commitAndPush_spec (w : World) (a : Attempt) (emptyRemote : Bool) (hFresh : w.Fresh)
    (hTip : tip.Before w.nextId) :
    (commitAndPush w a emptyRemote tip).1.Fresh ∧ ((commitAndPush w a emptyRemote tip).2 = true →
        HasFiles w.mirror.index a.content.files →
        RemoteHas (commitAndPush w a emptyRemote tip).1.remote a.pushBranch a.content.files) := by
  unfold commitAndPush
  set snapshot : Commit := ⟨w.nextId, w.mirror.index, tip.id :: tip.ancestors⟩ with hSnapshot
  have hStart :
      (Branches.mk (w.mirror.refs.insert a.pushBranch snapshot) w.remote).Sound snapshot w.nextId :=
    ⟨OldOrSnapshot.insert (fun branch c hC => .inr (hFresh.1 branch c hC)) (.inl rfl),
      fun branch c hC => .inr (hFresh.2 branch c hC)⟩
  obtain ⟨hSound, hAgree⟩ :=
    pushRetries_spec (emptyRemote || a.forcePush) a.forcePush a.pushBranch a.pushes hStart
  have hBefore : ∀ refs, OldOrSnapshot snapshot w.nextId refs → AllBefore refs (w.nextId + 1) := by
    intro refs hRefs branch c hC
    rcases hRefs branch c hC with rfl | hOld
    · exact hTip.succ _
    · exact hOld.mono (Nat.le_succ _)
  refine ⟨⟨hBefore _ hSound.1, hBefore _ hSound.2⟩, ?_⟩
  intro hOk hFiles
  rw [Bool.and_eq_true] at hOk
  exact ⟨snapshot, remote_of_verified rfl hSound (hAgree hOk.1) hOk.2, hFiles⟩

theorem hasFiles_of_clean {sha : Digest} {a : Attempt} {index : FileTree} {change : TreeChange}
    (hWrite : writeExportFiles sha tip.tree a.content.cfg a.content.files = .ok change) (hSame :
      sameTree tip.tree (stageChanges index change.tree a.content.cfg.prune a.paths) = true) :
    HasFiles tip.tree a.content.files := by
  have hStaged := hasFiles_stageChanges index a.content.cfg.prune (hasFiles_writeExportFiles hWrite)
  intro f hF
  rw [lookup_of_sameTree hSame]
  exact hStaged f hF

/- A checkout with the files is the remote's when sound. -/
theorem remoteHas_of_checkout {a : Attempt} {opened : Mirror}
    (hOpened : Opened cloneBranch w opened)
    (hTip : opened.checkoutTip cloneBranch a.pushBranch = some tip)
    (hSound : StartsSound cloneBranch w (.attempt a)) (hFiles : HasFiles tip.tree a.content.files) :
    RemoteHas w.remote a.pushBranch a.content.files := by
  obtain ⟨hClone, hOther⟩ := hOpened.checkoutTip hTip
  by_cases hPush : a.pushBranch = cloneBranch
  · exact ⟨tip, hClone hPush, hFiles⟩
  · obtain ⟨hBase, hOwn⟩ := hOther hPush
    rcases hSound with hEq | ⟨own, hLocal, hRemote⟩ | hLacks
    · exact absurd hEq hPush
    · obtain rfl := hOwn own hLocal
      exact ⟨own, hRemote, hFiles⟩
    · exact absurd hFiles (hLacks tip.tree hBase)

/-
  The attempt from its checkout on: either it pushed its files, or its return is clean and the tip
  has them.
-/
theorem exportOnBranch_spec (sha : Digest) (cloneBranch : Text) (w : World)
    (a : Attempt) (emptyRemote : Bool) {m : Mirror} {tip : Commit}
    (hFresh : World.Fresh { w with mirror := m }) (hTree : m.worktree = tip.tree)
    (hTip : tip.Before w.nextId) : (exportOnBranch sha cloneBranch w a emptyRemote m tip).1.Fresh ∧
      ((exportOnBranch sha cloneBranch w a emptyRemote m tip).2 = true → RemoteHas
          (exportOnBranch sha cloneBranch w a emptyRemote m tip).1.remote
          a.pushBranch a.content.files ∨
        (exportOnBranch sha cloneBranch w a emptyRemote m tip).1.remote = w.remote ∧
          HasFiles tip.tree a.content.files) := by
  unfold exportOnBranch
  cases checkMergeTargetClaims sha cloneBranch m a with
  | error e => exact ⟨hFresh, by simp⟩
  | ok _ =>
    rw [hTree]
    cases hWrite : writeExportFiles sha tip.tree a.content.cfg a.content.files with
    | error e => exact ⟨hFresh, by simp⟩
    | ok change =>
      dsimp only
      split_ifs with hSame
      · exact ⟨hFresh, fun _ => .inr ⟨rfl, hasFiles_of_clean hWrite hSame⟩⟩
      · set w' : World :=
          { w with
            mirror :=
              { m with
                index := stageChanges m.index change.tree a.content.cfg.prune a.paths
                worktree := change.tree } } with hW'
        obtain ⟨hNext, hDelivered⟩ := commitAndPush_spec w' a emptyRemote hFresh hTip
        exact ⟨hNext, fun hOk => .inl (hDelivered hOk
          (hasFiles_stageChanges _ _ (hasFiles_writeExportFiles hWrite)))⟩

theorem exportRemoteInWorkdir_spec (sha : Digest) (cloneBranch : Text) (a : Attempt)
    (hFresh : w.Fresh) : (exportRemoteInWorkdir sha cloneBranch w a).1.Fresh ∧
      (StartsSound cloneBranch w (.attempt a) → Delivers sha cloneBranch w (.attempt a)) := by
  simp only [Delivers]
  unfold exportRemoteInWorkdir
  cases hOpen : openOrWarmMirror cloneBranch w a.transportOk with
  | none => exact ⟨hFresh, by simp⟩
  | some result =>
    obtain ⟨opened, emptyRemote⟩ := result
    have hOpened := opened_of_openOrWarmMirror hOpen
    rcases hCheckout :
      checkoutMirrorBranch cloneBranch a.pushBranch opened
      with ⟨m, result⟩
    obtain ⟨hRefs, hChecked⟩ := checkoutMirrorBranch_spec hCheckout (hOpened.fresh hFresh)
    simp only [hCheckout]
    cases result with
    | none => exact ⟨⟨hRefs, hFresh.2⟩, by simp⟩
    | some tip =>
      obtain ⟨hTip, hTree, hBefore⟩ := hChecked tip rfl
      obtain ⟨hNext, hReturned⟩ :=
        exportOnBranch_spec sha cloneBranch w a emptyRemote ⟨hRefs, hFresh.2⟩ hTree hBefore
      refine ⟨hNext, fun hSound hOk => ?_⟩
      rcases hReturned hOk with hPushed | ⟨hRemote, hFiles⟩
      · exact hPushed
      · have hHas := remoteHas_of_checkout hOpened hTip hSound hFiles
        rw [← hRemote] at hHas
        exact hHas

theorem World.step_fresh (sha : Digest) (cloneBranch : Text) (e : MirrorEvent) (hFresh : w.Fresh) :
    (w.step sha cloneBranch e).Fresh := by
  cases e with
  | attempt a => exact (exportRemoteInWorkdir_spec sha cloneBranch a hFresh).1
  | foreignPush branch tree onTop =>
    refine ⟨hFresh.1.mono (Nat.le_succ _), ?_⟩
    refine (hFresh.2.mono (Nat.le_succ _)).insert ?_
    unfold foreignCommit
    split
    · rename_i tip hTip
      exact (hFresh.2 branch tip hTip).succ tree
    · exact ⟨Nat.lt_succ_self _, by simp⟩
  | foreignDelete branch => exact ⟨hFresh.1, hFresh.2.erase branch⟩

/-
  In a run whose attempts all start sound, every attempt that returns nil has delivered its files.
-/
theorem attempts_deliver (sha : Digest) (cloneBranch : Text) (w : World)
    (events : List MirrorEvent) (hFresh : w.Fresh)
    (hSound : Run.Along (World.step sha cloneBranch) (StartsSound cloneBranch) w events) :
    Run.Along (World.step sha cloneBranch) (Delivers sha cloneBranch) w events := by
  have hAlong := Run.along_invariant (fun w e hFresh _ => w.step_fresh sha cloneBranch e hFresh)
    hFresh hSound
  refine hAlong.imp ?_
  rintro w e ⟨hFresh, hStart⟩
  cases e with
  | attempt a => exact (exportRemoteInWorkdir_spec sha cloneBranch a hFresh).2 hStart
  | foreignPush | foreignDelete => trivial

/- A remote with one empty commit, and no mirror yet. -/
def emptyStart : World where
  mirror := { warm := false, head := [], refs := ∅, index := ∅, worktree := ∅ }
  remote := AList.singleton "main" ⟨0, ∅, []⟩
  nextId := 1

def rowAttempt (pushBranch : Text) (reached : Bool) : Attempt where
  pushBranch := pushBranch
  forcePush := false
  content :=
    { cfg :=
        { pruneOwner := []
          prune := false
          pruneKeepPaths := []
          pruneClaimPaths := [] }
      files := [{ path := "a.json", data := "row" }]
      nodup := by decide
      valid := by decide
      kept := .inr (.inl rfl) }
  transportOk := true
  leftover := ∅
  pushes := [⟨reached, true, true, true, true, true⟩]

theorem attempts_on_main_deliver :
    (exportRemoteInWorkdir paddedDigest "main" emptyStart (rowAttempt "main" true)).2 = true ∧
      Run.Along (World.step paddedDigest "main") (Delivers paddedDigest "main") emptyStart
        [.attempt (rowAttempt "main" false), .attempt (rowAttempt "main" true)] := by
  refine ⟨by decide +kernel, attempts_deliver paddedDigest "main" emptyStart _ ?_ ?_⟩
  · refine ⟨fun branch c hC => by simp [emptyStart] at hC, ?_⟩
    intro branch c hC
    rw [emptyStart, ← AList.insert_empty, GoMap.lookup_insert_ite] at hC
    split_ifs at hC
    · obtain rfl := Option.some.inj hC
      exact ⟨Nat.one_pos, by simp⟩
    · simp at hC
  · refine Run.along_of_forall fun e hE w => ?_
    rcases List.mem_pair.mp hE with rfl | rfl
    · exact .inl rfl
    · exact .inl rfl

/- The world after a push to a new branch has failed. -/
def strandedWorld : World :=
  emptyStart.step paddedDigest "main" (.attempt (rowAttempt "feature" false))

/- The export again, and the push would be reached now. -/
def strandedRetry : World × Bool :=
  exportRemoteInWorkdir paddedDigest "main" strandedWorld (rowAttempt "feature" true)

/-
  A push that fails after the commit strands it on the local branch; the next attempt finds nothing
  to commit, returns nil, and the remote has no such branch.
-/
theorem stranded_commit_returns_nil : strandedRetry.2 = true ∧
      ¬ Delivers paddedDigest "main" strandedWorld (.attempt (rowAttempt "feature" true)) := by
  have hReturn : strandedRetry.2 = true := by decide +kernel
  have hBranch : (strandedRetry.1.remote.lookup "feature".toList).isNone = true := by decide +kernel
  refine ⟨hReturn, fun hDelivers => ?_⟩
  obtain ⟨tip, hTip, -⟩ := hDelivers hReturn
  rw [Option.isNone_iff_eq_none] at hBranch
  exact nomatch hBranch.symm.trans hTip

end Git
end Sink
end Kollect
