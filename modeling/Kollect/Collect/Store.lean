import Kollect.Api

/-
  The in-memory collection store: rows keyed by target namespace, target name and resource UID, with
  a mutation counter for each namespace (`internal/collect/store.go`).

  Each operation is one atomic step: the source runs it under the lock of one shard. Change
  notifications are not part of the state.

  What a reader sees of an updated store is given by:
    * `Store.row?_upsert`
    * `Store.row?_remove`
    * `Store.row?_removeTarget`

  That the counter of a namespace moves with its content is `Store.mutate_cases`.
-/

----
-- Rows
----

namespace Kollect

namespace Collect

/- One collected resource with its extracted attributes. -/
structure Item where
  targetNamespace : Text
  targetName : Text
  namespace_ : Text
  name : Text
  group : Text
  version : Text
  kind : Text
  uid : Text
  attributes : GoMap Text Json
deriving DecidableEq

/- The rows of one target namespace, by target and UID. -/
abbrev StoreShard := GoMap Text (GoMap Text Item)

namespace StoreShard

/- The row of one resource under one target. -/
def row? (sh : StoreShard) (targetName uid : Text) : Option Item :=
  (sh.lookup targetName).bind (fun bucket => bucket.lookup uid)

theorem row?_insert (sh : StoreShard) (tname name uid : Text) (bucket : GoMap Text Item) :
    StoreShard.row? (sh.insert tname bucket) name uid =
      if name = tname then bucket.lookup uid
      else sh.row? name uid := by
  unfold row?
  rw [GoMap.lookup_insert_ite]
  split_ifs <;> rfl

theorem row?_erase (sh : StoreShard) (tname name uid : Text) :
    StoreShard.row? (sh.erase tname) name uid =
      if name = tname then none
      else sh.row? name uid := by
  unfold row?
  rw [GoMap.lookup_erase_ite]
  split_ifs <;> rfl

/- Delete a row; an emptied bucket is dropped. -/
def dropRow (sh : StoreShard) (targetName : Text)
    (bucket : GoMap Text Item) (uid : Text) : StoreShard :=
  let bucket := bucket.erase uid
  if bucket.entries.isEmpty then sh.erase targetName
  else sh.insert targetName bucket

theorem row?_dropRow {sh : StoreShard} {tname : Text} {bucket : GoMap Text Item}
    (hBucket : sh.lookup tname = some bucket) (tuid name uid : Text) :
    (sh.dropRow tname bucket tuid).row? name uid =
      if name = tname ∧ uid = tuid then none
      else sh.row? name uid := by
  have hRow : (sh.dropRow tname bucket tuid).row? name uid =
        if name = tname then (bucket.erase tuid).lookup uid
        else sh.row? name uid := by
    unfold dropRow
    by_cases hEmpty : (bucket.erase tuid).entries.isEmpty = true
    · have hGone : (bucket.erase tuid).lookup uid = none := by
        rw [AList.lookup, List.isEmpty_iff.mp hEmpty]
        rfl
      simp only [hEmpty, if_true, row?_erase, hGone]
    · simp only [hEmpty, if_false, row?_insert, Bool.false_eq_true]
  rw [hRow, GoMap.lookup_erase_ite]
  by_cases hName : name = tname
  · subst hName
    simp [row?, hBucket]
  · simp [hName]

end StoreShard

structure Store where
  shards : GoMap Text StoreShard
  versions : GoMap Text Nat

namespace Store

def empty : Store := ⟨∅, ∅⟩

variable (s : Store)

/- The shard of a namespace; a missing one is empty. -/
def shard (targetNamespace : Text) : StoreShard :=
  (s.shards.lookup targetNamespace).getD ∅

/- Every access creates the shard it reads, reads included. -/
def shardFor (targetNamespace : Text) : Store :=
  { s with shards := s.shards.insert targetNamespace (s.shard targetNamespace) }

/- Write back the rows of a namespace. -/
def setShard (targetNamespace : Text) (sh : StoreShard) : Store :=
  { s with shards := s.shards.insert targetNamespace sh }

def namespaceVersion (namespace_ : Text) : Nat := (s.versions.lookup namespace_).getD 0

def bumpNamespaceVersion (namespace_ : Text) : Store :=
  { s with versions := s.versions.insert namespace_ (s.namespaceVersion namespace_ + 1) }

----
-- Mutations
----

def upsert (item : Item) : Store :=
  let sh := s.shard item.targetNamespace
  let bucket := (sh.lookup item.targetName).getD ∅
  let s := s.setShard item.targetNamespace (sh.insert item.targetName (bucket.insert item.uid item))
  s.bumpNamespaceVersion item.targetNamespace

def removeTarget (targetNamespace targetName : Text) : Store :=
  let sh := s.shard targetNamespace
  let s := s.setShard targetNamespace (sh.erase targetName)
  s.bumpNamespaceVersion targetNamespace

/- Delete an item. The counter moves only when the target had a bucket. -/
def remove (targetNamespace targetName uid : Text) : Store :=
  match (s.shard targetNamespace).lookup targetName with
  | none => s.shardFor targetNamespace
  | some bucket =>
    let s := s.setShard targetNamespace ((s.shard targetNamespace).dropRow targetName bucket uid)
    s.bumpNamespaceVersion targetNamespace

inductive Mutation where
  | upsert (item : Item)
  | remove (targetNamespace targetName uid : Text)
  | removeTarget (targetNamespace targetName : Text)

def Mutation.targetNamespace : Mutation → Text
  | .upsert item => item.targetNamespace
  | .remove ns _ _ => ns
  | .removeTarget ns _ => ns

def mutate : Mutation → Store
  | .upsert item => s.upsert item
  | .remove ns name uid => s.remove ns name uid
  | .removeTarget ns name => s.removeTarget ns name

----
-- Reads
----

/- The row of one resource under one target. -/
def row? (s : Store) (targetNamespace targetName uid : Text) : Option Item :=
  (s.shard targetNamespace).row? targetName uid

def snapshotTarget (targetNamespace targetName : Text) : List Item :=
  (((s.shard targetNamespace).lookup targetName).getD ∅).entries.map Sigma.snd

def countForTarget (targetNamespace targetName : Text) : Nat :=
  (s.snapshotTarget targetNamespace targetName).length

/- All items of a namespace, in the order of its maps. -/
def snapshotNamespace (namespace_ : Text) : List Item :=
  (s.shard namespace_).entries.flatMap (fun bucket => bucket.2.entries.map Sigma.snd)

@[simp] theorem shard_setShard (s : Store) (ns ns' : Text) (sh : StoreShard) :
    (s.setShard ns sh).shard ns' = if ns' = ns then sh else s.shard ns' := by
  unfold shard setShard
  rw [GoMap.lookup_insert_ite]
  split_ifs <;> rfl

@[simp] theorem shard_bumpNamespaceVersion (s : Store) (ns ns' : Text) :
    (s.bumpNamespaceVersion ns).shard ns' = s.shard ns' :=
  rfl

@[simp] theorem shard_shardFor (s : Store) (ns ns' : Text) :
    (s.shardFor ns).shard ns' = s.shard ns' := by
  have hSelf : s.shardFor ns = s.setShard ns (s.shard ns) := rfl
  rw [hSelf, shard_setShard]
  split_ifs with hKey
  · rw [hKey]
  · rfl

theorem row?_upsert (item : Item) (ns name uid : Text) : (s.upsert item).row? ns name uid =
      if ns = item.targetNamespace ∧ name = item.targetName ∧ uid = item.uid then some item
      else s.row? ns name uid := by
  unfold row? upsert
  simp only [shard_bumpNamespaceVersion, shard_setShard]
  by_cases hNs : ns = item.targetNamespace
  · subst hNs
    rw [if_pos rfl, StoreShard.row?_insert, GoMap.lookup_insert_ite]
    by_cases hName : name = item.targetName
    · subst hName
      cases hBucket : (s.shard item.targetNamespace).lookup item.targetName with
      | none | some => simp [StoreShard.row?, hBucket]
    · simp [hName]
  · simp [hNs]

theorem row?_remove (tns tname tuid ns name uid : Text) :
    (s.remove tns tname tuid).row? ns name uid =
      if ns = tns ∧ name = tname ∧ uid = tuid then none
      else s.row? ns name uid := by
  unfold remove
  cases hBucket : (s.shard tns).lookup tname with
  | none =>
    simp only [row?, shard_shardFor]
    split_ifs with hKey
    · rw [hKey.1, hKey.2.1]
      simp [StoreShard.row?, hBucket]
    · rfl
  | some bucket =>
    simp only [row?, shard_bumpNamespaceVersion, shard_setShard]
    by_cases hNs : ns = tns
    · subst hNs
      simp only [if_true, true_and, StoreShard.row?_dropRow hBucket]
    · simp [hNs]

theorem row?_removeTarget (tns tname ns name uid : Text) :
    (s.removeTarget tns tname).row? ns name uid =
      if ns = tns ∧ name = tname then none
      else s.row? ns name uid := by
  unfold removeTarget row?
  simp only [shard_bumpNamespaceVersion, shard_setShard]
  by_cases hNs : ns = tns
  · subst hNs
    simp only [if_true, StoreShard.row?_erase, true_and]
  · simp [hNs]

theorem namespaceVersion_bumpNamespaceVersion (ns ns' : Text) :
    (s.bumpNamespaceVersion ns).namespaceVersion ns' =
      if ns' = ns then s.namespaceVersion ns + 1
      else s.namespaceVersion ns' := by
  unfold bumpNamespaceVersion namespaceVersion
  rw [GoMap.lookup_insert_ite]
  split_ifs <;> rfl

/- A write with its bump changes one namespace and counts. -/
theorem bump_setShard_cases (s : Store) (ns ns' : Text) (sh : StoreShard) :
    let after := (s.setShard ns sh).bumpNamespaceVersion ns
    after.shard ns' = s.shard ns' ∧ after.namespaceVersion ns' = s.namespaceVersion ns' ∨
      after.namespaceVersion ns' = s.namespaceVersion ns' + 1 := by
  intro after
  have hVersion := namespaceVersion_bumpNamespaceVersion (s.setShard ns sh) ns ns'
  by_cases hNs : ns' = ns
  · right
    rw [if_pos hNs] at hVersion
    rw [hVersion, hNs]
    rfl
  · left
    rw [if_neg hNs] at hVersion
    refine ⟨?_, hVersion⟩
    simp [after, hNs]

/- A mutation that changes a namespace moves its counter. -/
theorem mutate_cases (m : Mutation) (ns : Text) :
    (s.mutate m).shard ns = s.shard ns ∧ (s.mutate m).namespaceVersion ns = s.namespaceVersion ns ∨
      (s.mutate m).namespaceVersion ns = s.namespaceVersion ns + 1 := by
  cases m with
  | upsert item => exact bump_setShard_cases s _ ns _
  | removeTarget tns tname => exact bump_setShard_cases s tns ns _
  | remove tns tname uid =>
    unfold mutate remove
    dsimp only
    split
    · exact Or.inl ⟨shard_shardFor s tns ns, rfl⟩
    · exact bump_setShard_cases s tns ns _

end Store

end Collect

end Kollect
