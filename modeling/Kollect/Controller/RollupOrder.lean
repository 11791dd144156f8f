import Kollect.Controller.RollupChecksum
import Mathlib.Data.List.Permutation

/-
  Whether a rollup depends on the order of its targets.

  The targets of a rollup come from an API list and the rows of a target from a map. If rows are
  merged by resource, the target that is listed last decides which row of a resource stays, in each
  namespace where two targets have one.

  Key theorems include:
    * `noClash_of_orderFree`
    * `rollup_orderFree_iff`
-/

namespace Kollect
namespace Controller

open Collect
open Aggregate
open Export

----
-- Orders
----

/- Two rollups with one content; or none in both. -/
def Agree : Except Text ClusterRollup → Except Text ClusterRollup → Prop
  | .ok R, .ok R' => R.items.Perm R'.items ∧ R.checksum = R'.checksum
  | .error _, .error _ => True
  | _, _ => False

/- The same targets and rows, in other orders. -/
def RollupInput.relist (r : RollupInput) (targets : List Text) (store : Store) : RollupInput :=
  { r with targets := targets, store := store }

/- The rollup is the same in every order of what it reads. -/
def OrderFree (S : Sorter Text) (sha : Digest) (now : Instant)
    (generation : Int) (mode : DedupeMode) (r : RollupInput) : Prop :=
  ∀ targets store, targets.Perm r.targets → r.store.SameRows store → Agree
        (composeNamespaceRollup S sha now generation mode r)
        (composeNamespaceRollup S sha now generation mode (r.relist targets store))

/- No resource was collected twice into one namespace. -/
def NoClash (r : RollupInput) : Prop :=
  ∀ ns target target', (target, ns) ∈ r.visits → (target', ns) ∈ r.visits →
      ∀ a ∈ r.store.snapshotTarget ns target, ∀ b ∈ r.store.snapshotTarget ns target',
        resourceKeyFromItem a = resourceKeyFromItem b → target = target'

/- The texts a row is sorted by have no separator in them. -/
def NulFree (item : Item) : Prop :=
  ∀ text ∈ [item.targetNamespace, item.targetName, item.namespace_, item.name, item.uid, item.group,
      item.version, item.kind],
    '\x00' ∉ text

/- The rows of a store that the engine filled. -/
structure RegularRows (store : Store) : Prop where
  filed : store.Filed
  nulFree : ∀ ns name, ∀ item ∈ store.snapshotTarget ns name, NulFree item

theorem sameIdentity_of_itemCanonicalKey {a b : Item} (hA : NulFree a) (hB : NulFree b)
    (hKey : itemCanonicalKey a = itemCanonicalKey b) : SameIdentity a b := by
  unfold itemCanonicalKey at hKey
  have hTexts := congrArg (List.splitOn '\x00') hKey
  rw [List.splitOn_intercalate _ hA (List.cons_ne_nil _ _),
    List.splitOn_intercalate _ hB (List.cons_ne_nil _ _)] at hTexts
  simp only [List.cons.injEq, and_true] at hTexts
  rcases hTexts with ⟨hTargetNs, hTarget, hNs, hName, hUid, hGroup, hVersion, hKind⟩
  exact ⟨hTargetNs, hTarget, hNs, hName, hGroup, hVersion, hKind, hUid⟩

theorem row?_of_mem_snapshotTarget
    {store : Store} (hFiled : store.Filed) {ns name : Text} {item : Item}
    (hItem : item ∈ store.snapshotTarget ns name) :
    item.targetNamespace = ns ∧ item.targetName = name ∧
      store.row? ns name item.uid = some item := by
  rcases Store.mem_snapshotTarget.mp hItem with ⟨uid, hRow⟩
  rcases hFiled ns name uid item hRow with ⟨hNs, hName, hUid⟩
  exact ⟨hNs, hName, hUid ▸ hRow⟩

theorem eq_of_itemCanonicalKey {store : Store} (hRows : RegularRows store)
    {ns name name' : Text} {a b : Item} (hA : a ∈ store.snapshotTarget ns name)
    (hB : b ∈ store.snapshotTarget ns name') (hKey : itemCanonicalKey a = itemCanonicalKey b) :
    a = b := by
  have hSame := sameIdentity_of_itemCanonicalKey
    (hRows.nulFree ns name a hA) (hRows.nulFree ns name' b hB) hKey
  rcases row?_of_mem_snapshotTarget hRows.filed hA with ⟨-, hName, hRow⟩
  rcases row?_of_mem_snapshotTarget hRows.filed hB with ⟨-, hName', hRow'⟩
  rw [← hName, hSame.targetName, hName', hSame.uid, hRow'] at hRow
  exact (Option.some.inj hRow).symm

----
-- What Does Not Depend On The Order
----

section Relisted

variable {S : Sorter Text} {sha : Digest} {now : Instant} {generation : Int} {mode : DedupeMode}
variable {r r' : RollupInput}

theorem namespaceNames_congr (hRows : ∀ ns, (r.namespaceRows ns).Perm (r'.namespaceRows ns)) :
    r.namespaceNames = r'.namespaceNames := by
  apply Text.sort_eq_of_perm
  rw [List.perm_ext_iff_of_nodup (collectShards r).keys_nodup (collectShards r').keys_nodup]
  intro ns
  have hEmpty : r.namespaceRows ns ≠ [] ↔ r'.namespaceRows ns ≠ [] := by
    rw [ne_eq, ne_eq, ← List.length_eq_zero_iff, (hRows ns).length_eq, List.length_eq_zero_iff]
  rw [← r.mem_namespaceNames, ← r'.mem_namespaceNames] at hEmpty
  unfold RollupInput.namespaceNames at hEmpty
  rwa [Text.mem_sort, Text.mem_sort] at hEmpty

/- Rollups of the same shards have one content. -/
theorem agree_of_shards (hNames : r.namespaceNames = r'.namespaceNames)
    (hShards : ∀ ns ∈ r.namespaceNames, (r.shardItems mode ns).Perm (r'.shardItems mode ns))
    (hTexts : ∀ ns ∈ r.namespaceNames,
      rowsText S (r.shardItems mode ns) = rowsText S (r'.shardItems mode ns)) :
    Agree (composeNamespaceRollup S sha now generation mode r)
      (composeNamespaceRollup S sha now generation mode r') := by
  have hWritable : (∀ ns ∈ r.namespaceNames, Writable (r.shardItems mode ns)) ↔
      ∀ ns ∈ r'.namespaceNames, Writable (r'.shardItems mode ns) := by
    rw [← hNames]
    refine forall₂_congr fun ns hNs => ?_
    unfold Writable
    simp only [(hShards ns hNs).mem_iff]
  have hSum : checksumText S sha mode r = checksumText S sha mode r' := by
    unfold checksumText
    rw [← hNames]
    congr 1
    refine List.map_congr_left fun ns hNs => ?_
    unfold shardLine
    rw [hTexts ns hNs]
  have hItems : (rollupItems mode r).Perm (rollupItems mode r') := by
    have hKey : Function.FactorsThrough resourceKeyFromItem (id : Item → Item) :=
      fun a b hEq => congrArg resourceKeyFromItem hEq
    have hSame := perm_rollupItems hKey hNames (by simpa using hShards)
    simpa using hSame
  by_cases hAll : ∀ ns ∈ r.namespaceNames, Writable (r.shardItems mode ns)
  · rw [(composeNamespaceRollup_eq_ok S sha mode r now generation).mpr ⟨hAll, rfl⟩,
      (composeNamespaceRollup_eq_ok S sha mode r' now generation).mpr ⟨hWritable.mp hAll, rfl⟩]
    exact ⟨hItems, congrArg sha.hex hSum⟩
  · rcases composeNamespaceRollup_eq_error S sha mode r now generation hAll with ⟨message, hError⟩
    rcases composeNamespaceRollup_eq_error S sha mode r' now
      generation (mt hWritable.mpr hAll) with
      ⟨message', hError'⟩
    rw [hError, hError']
    trivial

variable {targets : List Text}

/- A relisting visits the same namespaces. -/
theorem perm_visits (hTargets : targets.Perm r.targets) (store : Store) :
    (r.relist targets store).visits.Perm r.visits :=
  hTargets.flatMap_right _

theorem perm_namespaceRows (hFiled : r.store.Filed) {store : Store}
    (hTargets : targets.Perm r.targets) (hStore : r.store.SameRows store) (ns : Text) :
    (r.namespaceRows ns).Perm ((r.relist targets store).namespaceRows ns) := by
  refine List.Perm.flatMap (perm_visits hTargets store).symm ?_
  intro visit hVisit
  split_ifs
  · exact Store.perm_snapshotTarget hFiled hStore ns visit.1
  · exact List.Perm.refl _

theorem eq_of_resourceKey (hFiled : r.store.Filed) (hClash : NoClash r) {ns : Text} :
    ∀ a ∈ r.namespaceRows ns, ∀ b ∈ r.namespaceRows ns,
      resourceKeyFromItem a = resourceKeyFromItem b → a = b := by
  intro a hA b hB hKey
  rcases RollupInput.mem_rowsFrom.mp hA with ⟨target, hVisit, hRow⟩
  rcases RollupInput.mem_rowsFrom.mp hB with ⟨target', hVisit', hRow'⟩
  have hTarget := hClash ns target target' hVisit hVisit' a hRow b hRow' hKey
  have hUid : a.uid = b.uid := congrArg ResourceUID.uid hKey
  have hFound := (row?_of_mem_snapshotTarget hFiled hRow).2.2
  have hFound' := (row?_of_mem_snapshotTarget hFiled hRow').2.2
  rw [hTarget, hUid, hFound'] at hFound
  exact (Option.some.inj hFound).symm

theorem perm_shardItems (hPerm : ∀ ns, (r.namespaceRows ns).Perm (r'.namespaceRows ns))
    (hOne : mode = .keepAll ∨ ∀ ns, ∀ a ∈ r.namespaceRows ns,
        ∀ b ∈ r.namespaceRows ns, resourceKeyFromItem a = resourceKeyFromItem b → a = b)
    (ns : Text) : (r.shardItems mode ns).Perm (r'.shardItems mode ns) := by
  unfold RollupInput.shardItems
  cases mode with
  | keepAll =>
    rw [mergeRows_keepAll, mergeRows_keepAll]
    exact hPerm ns
  | byResourceUID =>
    have hInj := hOne.resolve_left DedupeMode.noConfusion ns
    rw [mergeRows_byResourceUID, mergeRows_byResourceUID]
    exact (LastWins.perm_merge_lasting _).trans
      ((LastWins.perm_lasting_of_perm (hPerm ns) hInj).trans (LastWins.perm_merge_lasting _).symm)

theorem orderFree_of_noClash (hRows : RegularRows r.store) (hOne : mode = .keepAll ∨ NoClash r) :
    OrderFree S sha now generation mode r := by
  intro targets store hTargets hStore
  have hPerm := perm_namespaceRows hRows.filed hTargets hStore
  have hShards := perm_shardItems hPerm
    (hOne.imp_right fun hClash ns => eq_of_resourceKey hRows.filed hClash)
  refine agree_of_shards (namespaceNames_congr hPerm) (fun ns _ => hShards ns) fun ns _ => ?_
  -- the rows of a shard have one order
  have hInj : ∀ a ∈ r.shardItems mode ns,
      ∀ b ∈ r.shardItems mode ns, itemCanonicalKey a = itemCanonicalKey b → a = b := by
    intro a hA b hB hKey
    rcases RollupInput.mem_rowsFrom.mp (r.mem_of_mem_shardItems hA) with ⟨target, -, hRow⟩
    rcases RollupInput.mem_rowsFrom.mp (r.mem_of_mem_shardItems hB) with ⟨target', -, hRow'⟩
    exact eq_of_itemCanonicalKey hRows hRow hRow' hKey
  unfold rowsText Wire.canonicalItems
  rw [S.sortBy_eq_of_perm_of_inj itemCanonicalKey (hShards ns) hInj]

----
-- What Does
----

/- The target that is listed last decides. -/
theorem exists_row_of_last (hFiled : r.store.Filed) {target ns : Text}
    (hVisit : (target, ns) ∈ r.visits) {a : Item} (hA : a ∈ r.store.snapshotTarget ns target) :
    ∃ c ∈ (r.relist (r.targets.erase target ++ [target]) r.store).shardItems .byResourceUID ns,
      resourceKeyFromItem c = resourceKeyFromItem a ∧ c.targetName = target := by
  have hOwn : target ∈ r.targets ∧ (target, ns) ∈
      ((namespacesForClusterTarget r.engine target).filter
        r.selects).map fun ns => (target, ns) := by
    rcases List.mem_flatMap.mp hVisit with ⟨t, hT, hMem⟩
    rcases List.mem_map.mp hMem with ⟨ns', hNs, hEq⟩
    cases hEq
    exact ⟨hT, hMem⟩
  have hVisits : (r.relist (r.targets.erase target ++ [target]) r.store).visits =
      (r.relist (r.targets.erase target) r.store).visits ++
        ((namespacesForClusterTarget r.engine target).filter
          r.selects).map fun ns => (target, ns) := by
    unfold RollupInput.visits RollupInput.relist
    rw [List.flatMap_append, List.flatMap_singleton]
    rfl
  have hLater : resourceKeyFromItem a ∈ (RollupInput.rowsFrom r.store
        (((namespacesForClusterTarget r.engine target).filter
          r.selects).map fun ns => (target, ns)) ns).map
        resourceKeyFromItem :=
    List.mem_map_of_mem (RollupInput.mem_rowsFrom.mpr ⟨target, hOwn.2, hA⟩)
  unfold RollupInput.shardItems RollupInput.namespaceRows
  rw [mergeRows_byResourceUID, hVisits, RollupInput.rowsFrom_append]
  rcases LastWins.exists_lasting_append hLater with ⟨c, hC, hKey, hLasting⟩
  refine ⟨c, (LastWins.perm_merge_lasting _).mem_iff.mpr hLasting, hKey, ?_⟩
  rcases RollupInput.mem_rowsFrom.mp hC with ⟨t, hT, hRow⟩
  rcases List.mem_map.mp hT with ⟨ns', -, hEq⟩
  cases hEq
  exact (row?_of_mem_snapshotTarget hFiled hRow).2.1

theorem perm_erase_append {target : Text} (hMem : target ∈ r.targets) :
    (r.targets.erase target ++ [target]).Perm r.targets :=
  (List.perm_append_singleton _ _).trans (List.perm_cons_erase hMem).symm

theorem writable_shardItems (hWritable : ∀ ns name, Writable (r.store.snapshotTarget ns name))
    (ns : Text) : Writable (r.shardItems mode ns) := by
  intro item hItem
  rcases RollupInput.mem_rowsFrom.mp (r.mem_of_mem_shardItems hItem) with ⟨target, -, hRow⟩
  exact hWritable ns target item hRow

theorem checksum_of_orderFree (hWritable : ∀ ns name, Writable (r.store.snapshotTarget ns name))
    (hFree : OrderFree S sha now generation mode r) (hTargets : targets.Perm r.targets) :
    sha.hex (checksumText S sha mode r) =
      sha.hex (checksumText S sha mode (r.relist targets r.store)) := by
  have hWritable' : ∀ ns, Writable ((r.relist targets r.store).shardItems mode ns) :=
    @writable_shardItems mode (r.relist targets r.store) hWritable
  have hAgree := hFree targets r.store hTargets (fun _ _ _ => rfl)
  rw [(composeNamespaceRollup_eq_ok S sha mode r now generation).mpr
      ⟨fun ns _ => writable_shardItems hWritable ns, rfl⟩,
    (composeNamespaceRollup_eq_ok S sha mode (r.relist targets r.store) now generation).mpr
      ⟨fun ns _ => hWritable' ns, rfl⟩]
    at hAgree
  exact hAgree.2

/- A clash is seen in the checksum. -/
theorem noClash_of_orderFree
    (hRows : RegularRows r.store) (hColon : ∀ ns ∈ r.namespaceNames, ':' ∉ ns)
    (hDecimal : DecimalRows r.store)
    (hWritable : ∀ ns name, Writable (r.store.snapshotTarget ns name))
    (hApart : ∀ targets targets', targets.Perm r.targets → targets'.Perm r.targets →
        ∀ text ∈ hashedTexts S sha .byResourceUID (r.relist targets r.store),
        ∀ text' ∈ hashedTexts S sha .byResourceUID (r.relist targets' r.store),
          sha.hex text = sha.hex text' → text = text')
    (hFree : OrderFree S sha now generation .byResourceUID r) : NoClash r := by
  intro ns target target' hVisit hVisit' a hA b hB hKey
  have hMem : ∀ {t : Text}, (t, ns) ∈ r.visits → t ∈ r.targets := by
    intro t hT
    rcases List.mem_flatMap.mp hT with ⟨t', hT', hPair⟩
    rcases List.mem_map.mp hPair with ⟨ns', -, hEq⟩
    cases hEq
    exact hT'
  -- the rollups with the one and the other target at the end
  have hLast := perm_erase_append (hMem hVisit)
  have hLast' := perm_erase_append (hMem hVisit')
  have hNames : ∀ {targets : List Text},
      targets.Perm r.targets → r.namespaceNames = (r.relist targets r.store).namespaceNames :=
    fun hTargets => namespaceNames_congr
      (perm_namespaceRows hRows.filed hTargets (fun _ _ _ => rfl))
  have hSum := (checksum_of_orderFree hWritable hFree
    hLast).symm.trans (checksum_of_orderFree hWritable hFree hLast')
  have hDecimal' : ∀ targets, DecimalRows (r.relist targets r.store).store := fun _ => hDecimal
  have hShards := (shards_of_checksum (hNames hLast ▸ hColon)
    (hNames hLast' ▸ hColon) (hDecimal' _) (hDecimal' _) (hApart _ _ hLast hLast') hSum).2
  have hNs : ns ∈ r.namespaceNames := by
    rw [r.mem_namespaceNames]
    exact List.ne_nil_of_mem (RollupInput.mem_rowsFrom.mpr ⟨target, hVisit, hA⟩)
  rcases exists_row_of_last hRows.filed hVisit hA with ⟨c, hC, hCKey, hCTarget⟩
  rcases exists_row_of_last hRows.filed hVisit' hB with ⟨d, hD, hDKey, hDTarget⟩
  -- the row of the first target is in the second rollup, too
  rcases List.mem_map.mp (((hShards ns (hNames hLast ▸ hNs)).mem_iff).mp (List.mem_map_of_mem hC))
    with ⟨c', hC', hText⟩
  have hSame := sameIdentity_of_wireText hText
  have hRow : c' = d := by
    apply List.inj_on_of_nodup_map (nodup_shardItems ns) hC' hD
    rw [resourceKeyFromItem_of_wireText hText, hCKey, hDKey, hKey]
  rw [← hCTarget, ← hDTarget, ← hRow, hSame.targetName]

/-
  A rollup does not depend on the order of its targets and rows exactly if all rows are kept or no
  two targets have a row of one resource in one namespace.
-/
theorem rollup_orderFree_iff
    (hRows : RegularRows r.store) (hColon : ∀ ns ∈ r.namespaceNames, ':' ∉ ns)
    (hDecimal : DecimalRows r.store)
    (hWritable : ∀ ns name, Writable (r.store.snapshotTarget ns name))
    (hApart : ∀ targets targets', targets.Perm r.targets → targets'.Perm r.targets →
        ∀ text ∈ hashedTexts S sha mode (r.relist targets r.store), ∀ text' ∈ hashedTexts S sha mode
          (r.relist targets' r.store), sha.hex text = sha.hex text' → text = text') :
    OrderFree S sha now generation mode r ↔ mode = .keepAll ∨ NoClash r := by
  refine ⟨fun hFree => ?_, orderFree_of_noClash hRows⟩
  cases mode with
  | keepAll => exact .inl rfl
  | byResourceUID => exact .inr (noClash_of_orderFree hRows hColon hDecimal hWritable hApart hFree)

end Relisted

----
-- Two Targets With One Resource
----

theorem filed_twoRows (uid : Text) : (twoRows uid).Filed :=
  Store.filed_mutate (Store.filed_mutate Store.filed_empty (.upsert teamRow))
    (.upsert (auditRow uid))

theorem regularRows_twoRows {uid : Text} (hUid : '\x00' ∉ uid) : RegularRows (twoRows uid) := by
  refine ⟨filed_twoRows uid, fun ns name item hItem => ?_⟩
  rcases Store.mem_snapshotTarget.mp hItem with ⟨uid', hRow⟩
  rcases row?_twoRows hRow with rfl | rfl
  · unfold NulFree
    decide
  · simp only [NulFree, auditRow, List.forall_mem_cons, hUid, not_false_eq_true, true_and]
    decide

theorem writable_twoRows (uid ns name : Text) :
    Writable ((twoRows uid).snapshotTarget ns name) := by
  intro item hItem
  have hShaped : ∀ {row : Item}, row.attributes = ∅ → ShapedItem row := by
    intro row hNone key value hValue
    rw [hNone] at hValue
    cases hValue
  rcases Store.mem_snapshotTarget.mp hItem with ⟨uid', hRow⟩
  rcases row?_twoRows hRow with rfl | rfl
  · exact unsupported?_itemJson (hShaped rfl)
  · exact unsupported?_itemJson (hShaped rfl)

theorem noClash_listing (targets : List Text) : NoClash (listing "uid-2" targets) := by
  intro ns target target' hVisit hVisit' a hA b hB hKey
  have hFiled := filed_twoRows "uid-2"
  rcases row?_of_mem_snapshotTarget hFiled hA with ⟨-, hTarget, hRow⟩
  rcases row?_of_mem_snapshotTarget hFiled hB with ⟨-, hTarget', hRow'⟩
  rw [← hTarget, ← hTarget']
  rcases row?_twoRows hRow with rfl | rfl
  · rcases row?_twoRows hRow' with rfl | rfl
    · rfl
    · exact absurd hKey (by decide)
  · rcases row?_twoRows hRow' with rfl | rfl
    · exact absurd hKey (by decide)
    · rfl

theorem listing_is_orderFree : OrderFree Sorter.stable paddedDigest leapDay 1 .byResourceUID
      (listing "uid-2" ["deployments", "audit"]) := by
  have hIff := @rollup_orderFree_iff Sorter.stable paddedDigest leapDay 1 .byResourceUID
    (listing "uid-2" ["deployments", "audit"]) (regularRows_twoRows (by decide)) (by decide +kernel)
    (decimalRows_twoRows _) (writable_twoRows _)
  refine (hIff ?_).mpr (.inr (noClash_listing _))
  intro targets targets' hTargets hTargets'
  rcases List.perm_pair.mp hTargets with rfl | rfl
  · rcases List.perm_pair.mp hTargets' with rfl | rfl
    · decide +kernel
    · decide +kernel
  · rcases List.perm_pair.mp hTargets' with rfl | rfl
    · decide +kernel
    · decide +kernel

/- The target that is listed last has its row exported. -/
theorem last_listed_target_wins :
    ∃ R R' : ClusterRollup, composeNamespaceRollup Sorter.stable paddedDigest leapDay 1
          .byResourceUID (listing "uid-1" ["deployments", "audit"]) = .ok R ∧
        composeNamespaceRollup Sorter.stable paddedDigest leapDay 1 .byResourceUID
          (listing "uid-1" ["audit", "deployments"]) = .ok R' ∧
        R.items.map Item.targetName = [("audit" : Text)] ∧
        R'.items.map Item.targetName = [("deployments" : Text)] ∧ R.checksum ≠ R'.checksum := by
  have hOk := (composeNamespaceRollup_eq_ok Sorter.stable paddedDigest .byResourceUID
    (listing "uid-1" ["deployments", "audit"]) leapDay 1).mpr
    ⟨by unfold Writable; decide +kernel, rfl⟩
  have hOk' := (composeNamespaceRollup_eq_ok Sorter.stable paddedDigest .byResourceUID
    (listing "uid-1" ["audit", "deployments"]) leapDay 1).mpr
    ⟨by unfold Writable; decide +kernel, rfl⟩
  refine ⟨_, _, hOk, hOk', ?_, ?_, ?_⟩
  · decide +kernel
  · decide +kernel
  · decide +kernel

end Controller
end Kollect
