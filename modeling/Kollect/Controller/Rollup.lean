import Kollect.Aggregate.Dedupe
import Kollect.Collect.Snapshot
import Kollect.Controller.ClusterTarget
import Kollect.Export.RoundTrip

/-
  The rollup of a cluster inventory (`controller/kollectclusterinventory_controller.go`).

  The rows of the selected targets are put together namespace by namespace. Each namespace has a
  fingerprint of its merged rows, the checksum of the rollup is made from these, and the rows of all
  namespaces are merged once more.

  Key theorems include:
    * `composeNamespaceRollup_eq_ok`
    * `mergeRows_laws`
-/

namespace Kollect
namespace Controller

open Collect
open Aggregate
open Export

----
-- Shards
----

structure NamespaceRollupShard where
  items : List Item
  targets : List Text

/- A snapshot without rows leaves no shard behind. -/
def addSnapshot (store : Store) (target : Text) (shards : GoMap Text NamespaceRollupShard)
    (ns : Text) : GoMap Text NamespaceRollupShard :=
  let snapshot := store.snapshotTarget ns target
  if snapshot = [] then shards
  else
    let shard := (shards.lookup ns).getD ⟨[], []⟩
    shards.insert ns ⟨shard.items ++ snapshot, shard.targets.insert target⟩

/- What a rollup reads: the selection and the engine. -/
structure RollupInput where
  engine : Engine
  store : Store
  targets : List Text
  selectedNamespaceNames : List Text

/- No selected names stand for all namespaces. -/
def RollupInput.selects (r : RollupInput) (ns : Text) : Bool :=
  r.selectedNamespaceNames.isEmpty || r.selectedNamespaceNames.contains ns

def collectShards (r : RollupInput) : GoMap Text NamespaceRollupShard :=
  r.targets.foldl
    (fun shards target =>
      (namespacesForClusterTarget r.engine target).foldl
        (fun shards ns =>
          if r.selects ns then addSnapshot r.store target shards ns
          else shards)
        shards)
    ∅

----
-- Rollups
----

structure InventoryNamespaceShardStatus where
  namespace_ : Text
  itemCount : Nat
  targetCount : Nat
  checksum : Text

structure ClusterRollup where
  items : List Item
  payload : Text
  checksum : Text
  namespaceShards : List InventoryNamespaceShardStatus

/- Each line ends with a line feed. -/
def composeNamespaceShardChecksum (sha : Digest) (shardChecksums : List Text) : Text :=
  sha.hex (shardChecksums.flatMap fun line => line ++ ['\n'])

/- The merged rows of one namespace, and their fingerprint. -/
def shardStatus (S : Sorter Text) (sha : Digest) (mode : DedupeMode)
    (ns : Text) (shard : NamespaceRollupShard) :
    Except Text (InventoryNamespaceShardStatus × List Item) := do
  let shardItems := mergeRows shard.items mode
  let checksum ← Wire.itemsFingerprint S sha shardItems
  return (⟨ns, shardItems.length, shard.targets.length, checksum⟩, shardItems)

def composeNamespaceRollup (S : Sorter Text) (sha : Digest) (now : Instant)
    (generation : Int) (mode : DedupeMode) (r : RollupInput) : Except Text ClusterRollup := do
  let shards := collectShards r
  let namespaceNames := Text.sort shards.keys
  let parts ← namespaceNames.mapM fun ns =>
    shardStatus S sha mode ns ((shards.lookup ns).getD ⟨[], []⟩)
  let items := mergeRows (parts.flatMap Prod.snd) mode
  let payload ← marshalExportEnvelope S sha now items ⟨generation, [], Instant.zero, 0, 0⟩
  return {
    items := items
    payload := payload
    checksum := composeNamespaceShardChecksum sha
        (parts.map fun part => part.1.namespace_ ++ ':' :: part.1.checksum)
    namespaceShards := parts.map Prod.fst }

----
-- The Rows Of A Namespace
----

namespace RollupInput

variable (r : RollupInput)

def visits : List (Text × Text) :=
  r.targets.flatMap fun target =>
    ((namespacesForClusterTarget r.engine target).filter r.selects).map fun ns => (target, ns)

/- What the visits find in one namespace. -/
def rowsFrom (store : Store) (visits : List (Text × Text)) (ns : Text) : List Item :=
  visits.flatMap fun visit => if visit.2 = ns then store.snapshotTarget ns visit.1 else []

def namespaceRows (ns : Text) : List Item := rowsFrom r.store r.visits ns

def namespaceNames : List Text := Text.sort (collectShards r).keys

def shardItems (mode : DedupeMode) (ns : Text) : List Item := mergeRows (r.namespaceRows ns) mode

theorem collectShards_eq : collectShards r =
      r.visits.foldl (fun shards visit => addSnapshot r.store visit.1 shards visit.2) ∅ := by
  unfold collectShards visits
  rw [List.foldl_flatMap]
  simp only [List.foldl_map, List.foldl_filter]

theorem rowsFrom_append (store : Store) (visits later : List (Text × Text)) (ns : Text) :
    rowsFrom store (visits ++ later) ns = rowsFrom store visits ns ++ rowsFrom store later ns :=
  List.flatMap_append

/- A namespace without rows has no shard. -/
inductive ShardOf : Option NamespaceRollupShard → List Item → Prop
  | none : ShardOf none []
  | some {items : List Item} (targets : List Text)
      (hRows : items ≠ []) : ShardOf (some ⟨items, targets⟩) items

variable {shard? : Option NamespaceRollupShard} {rows : List Item}

theorem ShardOf.items_getD (hShard : ShardOf shard? rows) :
    (shard?.getD ⟨[], []⟩).items = rows := by
  cases hShard with
  | none => rfl
  | some targets hRows => rfl

theorem ShardOf.isSome_iff (hShard : ShardOf shard? rows) : shard?.isSome = true ↔ rows ≠ [] := by
  cases hShard with
  | none => exact iff_of_false Bool.false_ne_true (not_not.mpr rfl)
  | some targets hRows => exact iff_of_true rfl hRows

theorem shardOf_addSnapshot {store : Store} {shards : GoMap Text NamespaceRollupShard} {ns' : Text}
    (hBefore : ShardOf (shards.lookup ns') rows) (target ns : Text) :
    ShardOf ((addSnapshot store target shards ns).lookup ns')
      (rows ++ rowsFrom store [(target, ns)] ns') := by
  have hRows : rowsFrom store [(target, ns)] ns' =
      if ns = ns' then store.snapshotTarget ns' target else [] :=
    List.append_nil _
  unfold addSnapshot
  dsimp only
  rw [hRows]
  by_cases hNs : ns = ns'
  · subst hNs
    rw [if_pos rfl]
    by_cases hEmpty : store.snapshotTarget ns target = []
    · rw [if_pos hEmpty, hEmpty, List.append_nil]
      exact hBefore
    · rw [if_neg hEmpty, GoMap.lookup_insert_ite, if_pos rfl, hBefore.items_getD]
      exact ShardOf.some _ (List.append_ne_nil_of_right_ne_nil _ hEmpty)
  · rw [if_neg hNs, List.append_nil]
    split_ifs
    · exact hBefore
    · rw [GoMap.lookup_insert_ite, if_neg (Ne.symm hNs)]
      exact hBefore

theorem shardOf_collectShards (ns : Text) :
    ShardOf ((collectShards r).lookup ns) (r.namespaceRows ns) := by
  rw [collectShards_eq, namespaceRows]
  induction r.visits using List.reverseRecOn with
  | nil => exact ShardOf.none
  | append_singleton visits visit ih =>
    rw [List.foldl_append, rowsFrom_append]
    exact shardOf_addSnapshot ih visit.1 visit.2

variable {ns : Text}

theorem mem_namespaceNames : ns ∈ r.namespaceNames ↔ r.namespaceRows ns ≠ [] := by
  unfold namespaceNames
  rw [Text.mem_sort, ← AList.mem_keys, ← AList.lookup_isSome]
  exact (shardOf_collectShards r ns).isSome_iff

theorem mem_rowsFrom {store : Store} {visits : List (Text × Text)} {item : Item} :
    item ∈ rowsFrom store visits ns ↔
      ∃ target, (target, ns) ∈ visits ∧ item ∈ store.snapshotTarget ns target := by
  unfold rowsFrom
  rw [List.mem_flatMap]
  constructor
  · rintro ⟨⟨target, ns'⟩, hVisit, hItem⟩
    split_ifs at hItem with hNs
    · exact ⟨target, hNs ▸ hVisit, hItem⟩
    · cases hItem
  · rintro ⟨target, hVisit, hItem⟩
    exact ⟨(target, ns), hVisit, by rwa [if_pos rfl]⟩

theorem mem_of_mem_shardItems {mode : DedupeMode} {item : Item}
    (hItem : item ∈ r.shardItems mode ns) : item ∈ r.namespaceRows ns :=
  mem_of_mem_mergeRows hItem

end RollupInput

----
-- What A Rollup Is
----

section Result

variable (S : Sorter Text) (sha : Digest) (mode : DedupeMode) (r : RollupInput)

/- The text that the fingerprint of rows is made from. -/
def rowsText (items : List Item) : Text :=
  Json.encode (.arr ((Wire.canonicalItems S items).map itemJson))

/- The rows can be written as JSON. -/
def Writable (items : List Item) : Prop := ∀ item ∈ items, (itemJson item).unsupported? = none

variable {items : List Item}

theorem unsupported?_canonicalItems :
    (Json.arr ((Wire.canonicalItems S items).map itemJson)).unsupported? = none ↔
      Writable items := by
  rw [Json.unsupported?_arr, List.forall_mem_map]
  unfold Writable Wire.canonicalItems
  simp only [Sorter.mem_sortBy]

theorem itemsFingerprint_eq_ok {checksum : Text} :
    Wire.itemsFingerprint S sha items = .ok checksum ↔
      Writable items ∧ checksum = sha.hex (rowsText S items) := by
  rw [← @unsupported?_canonicalItems S items]
  unfold Wire.itemsFingerprint rowsText
  dsimp only
  cases (Json.arr ((Wire.canonicalItems S items).map itemJson)).unsupported? with
  | some value => exact iff_of_false nofun (fun h => nomatch h.1)
  | none =>
    rw [Except.ok.injEq, eq_comm]
    exact (and_iff_right rfl).symm

theorem marshalExportEnvelope_eq_ok {now : Instant} {metadata : ExportMetadata} {payload : Text} :
    marshalExportEnvelope S sha now items metadata = .ok payload ↔ Writable items ∧
        payload = Json.encode ((metadata.envelope sha now (Wire.canonicalItems S items)).json) := by
  rw [← @unsupported?_canonicalItems S items]
  unfold marshalExportEnvelope
  dsimp only
  cases (Json.arr ((Wire.canonicalItems S items).map itemJson)).unsupported? with
  | some value => exact iff_of_false nofun (fun h => nomatch h.1)
  | none =>
    rw [Except.ok.injEq, eq_comm]
    exact (and_iff_right rfl).symm

/- One line of the text that the checksum is made from. -/
def shardLine (ns : Text) : Text := ns ++ ':' :: sha.hex (rowsText S (r.shardItems mode ns))

def checksumText : Text :=
  (r.namespaceNames.map (shardLine S sha mode r)).flatMap fun line => line ++ ['\n']

def rollupItems : List Item := mergeRows (r.namespaceNames.flatMap (r.shardItems mode)) mode

/- A part of a namespace whose rows can be written. -/
def shardPart (ns : Text) : InventoryNamespaceShardStatus × List Item :=
  (⟨ns, (r.shardItems mode ns).length, (((collectShards r).lookup ns).getD ⟨[], []⟩).targets.length,
    sha.hex (rowsText S (r.shardItems mode ns))⟩, r.shardItems mode ns)

theorem shardStatus_eq_ok {ns : Text} {part : InventoryNamespaceShardStatus × List Item} :
    shardStatus S sha mode ns (((collectShards r).lookup ns).getD ⟨[], []⟩) = .ok part ↔
      Writable (r.shardItems mode ns) ∧ part = shardPart S sha mode r ns := by
  unfold shardStatus
  rw [(RollupInput.shardOf_collectShards r ns).items_getD, Fallible.bind_eq_ok]
  constructor
  · rintro ⟨checksum, hSum, hPart⟩
    rcases (itemsFingerprint_eq_ok S sha).mp hSum with ⟨hWritable, rfl⟩
    cases hPart
    exact ⟨hWritable, rfl⟩
  · rintro ⟨hWritable, rfl⟩
    exact ⟨_, (itemsFingerprint_eq_ok S sha).mpr ⟨hWritable, rfl⟩, rfl⟩

theorem parts_eq_ok {parts : List (InventoryNamespaceShardStatus × List Item)} :
    (r.namespaceNames.mapM fun ns =>
        shardStatus S sha mode ns (((collectShards r).lookup ns).getD ⟨[], []⟩)) = .ok parts ↔
      (∀ ns ∈ r.namespaceNames, Writable (r.shardItems mode ns)) ∧
      parts = r.namespaceNames.map (shardPart S sha mode r) := by
  rw [Fallible.mapM_eq_ok]
  constructor
  · intro hMap
    have hEach : ∀ ns ∈ r.namespaceNames, Writable (r.shardItems mode ns) := by
      intro ns hNs
      have hMem : shardStatus S sha mode ns
          (((collectShards r).lookup ns).getD ⟨[], []⟩) ∈ parts.map .ok :=
        hMap ▸ List.mem_map_of_mem hNs
      rcases List.mem_map.mp hMem with ⟨part, -, hPart⟩
      exact ((shardStatus_eq_ok S sha mode r).mp hPart.symm).1
    refine ⟨hEach, ?_⟩
    have hInj : Function.Injective
        (Except.ok : _ → Except Text (InventoryNamespaceShardStatus × List Item)) :=
      fun _ _ hOk => Except.ok.inj hOk
    apply hInj.list_map
    rw [← hMap, List.map_map]
    refine List.map_congr_left fun ns hNs => ?_
    exact (shardStatus_eq_ok S sha mode r).mpr ⟨hEach ns hNs, rfl⟩
  · rintro ⟨hEach, rfl⟩
    rw [List.map_map]
    refine List.map_congr_left fun ns hNs => ?_
    exact (shardStatus_eq_ok S sha mode r).mpr ⟨hEach ns hNs, rfl⟩

/-
  A rollup is made if the rows of every shard can be written; what it holds is told from the shards.
-/
theorem composeNamespaceRollup_eq_ok (now : Instant) (generation : Int) {R : ClusterRollup} :
    composeNamespaceRollup S sha now generation mode r = .ok R ↔
      (∀ ns ∈ r.namespaceNames, Writable (r.shardItems mode ns)) ∧ R =
        { items := rollupItems mode r
          payload := Json.encode ((ExportMetadata.envelope
                ⟨generation, [], Instant.zero, 0, 0⟩ sha now
                (Wire.canonicalItems S (rollupItems mode r))).json)
          checksum := sha.hex (checksumText S sha mode r)
          namespaceShards := r.namespaceNames.map fun ns => (shardPart S sha mode r ns).1 } := by
  have hFlat : (r.namespaceNames.map (shardPart S sha mode r)).flatMap Prod.snd =
        r.namespaceNames.flatMap (r.shardItems mode) := by
    rw [List.flatMap_map]
    rfl
  unfold composeNamespaceRollup
  rw [Fallible.bind_eq_ok]
  constructor
  · rintro ⟨parts, hParts, hRest⟩
    rcases (parts_eq_ok S sha mode r).mp hParts with ⟨hEach, rfl⟩
    rcases Fallible.bind_eq_ok.mp hRest with ⟨payload, hPayload, hR⟩
    rw [hFlat] at hPayload hR
    rcases (marshalExportEnvelope_eq_ok S sha).mp hPayload with ⟨-, rfl⟩
    cases hR
    refine ⟨hEach, ?_⟩
    rw [List.map_map, List.map_map]
    rfl
  · rintro ⟨hEach, rfl⟩
    have hWritable : Writable (rollupItems mode r) := by
      intro item hItem
      rcases List.mem_flatMap.mp (mem_of_mem_mergeRows hItem) with ⟨ns, hNs, hShard⟩
      exact hEach ns hNs item hShard
    refine ⟨_, (parts_eq_ok S sha mode r).mpr ⟨hEach, rfl⟩, ?_⟩
    rw [hFlat, Fallible.bind_eq_ok]
    refine ⟨_, (marshalExportEnvelope_eq_ok S sha).mpr ⟨hWritable, rfl⟩, ?_⟩
    rw [List.map_map, List.map_map]
    rfl

theorem composeNamespaceRollup_eq_error (now : Instant) (generation : Int)
    (hNot : ¬ ∀ ns ∈ r.namespaceNames, Writable (r.shardItems mode ns)) :
    ∃ message, composeNamespaceRollup S sha now generation mode r = .error message := by
  cases hR : composeNamespaceRollup S sha now generation mode r with
  | ok R =>
    have hOk := (composeNamespaceRollup_eq_ok S sha mode r now generation).mp hR
    exact absurd hOk.1 hNot
  | error message => exact ⟨message, rfl⟩

end Result

----
-- Merging Twice
----

theorem rollupItems_eq_mergeRows (r : RollupInput) : rollupItems .byResourceUID r =
      mergeRows (r.namespaceNames.flatMap r.namespaceRows)
        .byResourceUID := by
  have hShards : r.namespaceNames.map (r.shardItems .byResourceUID) =
        (r.namespaceNames.map r.namespaceRows).map (LastWins.merge resourceKeyFromItem) := by
    rw [List.map_map]
    exact List.map_congr_left fun ns _ => mergeRows_byResourceUID _
  unfold rollupItems
  rw [mergeRows_byResourceUID, mergeRows_byResourceUID, List.flatMap_def, List.flatMap_def, hShards,
    LastWins.merge_flatten_merge]

/-
  Merging keeps the last row of each resource where its first row stands. It may be done twice and
  part by part, and a rollup exports the rows that one merge of all rows, in the order of the
  namespaces, would keep.
-/
theorem mergeRows_laws (xs ys : List Item) :
    ((mergeRows xs .byResourceUID).map resourceKeyFromItem =
        (xs.map resourceKeyFromItem).eraseDups ∧
      ∀ row, row ∈ mergeRows xs .byResourceUID ↔ ∃ front back, xs = front ++ row :: back ∧
          resourceKeyFromItem row ∉ back.map resourceKeyFromItem) ∧
    mergeRows (mergeRows xs .byResourceUID) .byResourceUID = mergeRows xs .byResourceUID ∧
    mergeRows (mergeRows xs .byResourceUID ++ mergeRows ys .byResourceUID) .byResourceUID =
      mergeRows (xs ++ ys) .byResourceUID ∧
    ∀ S sha now generation r R,
      composeNamespaceRollup S sha now generation
          .byResourceUID r = .ok R → R.items = mergeRows (r.namespaceNames.flatMap r.namespaceRows)
            .byResourceUID := by
  refine ⟨?_, ?_, ?_, ?_⟩
  · rw [mergeRows_byResourceUID]
    exact ⟨LastWins.keys_merge xs, fun row => LastWins.mem_merge_iff⟩
  · rw [mergeRows_byResourceUID, mergeRows_byResourceUID,
      LastWins.merge_of_nodup (LastWins.nodup_merge xs)]
  · rw [mergeRows_byResourceUID, mergeRows_byResourceUID,
      mergeRows_byResourceUID, mergeRows_byResourceUID, LastWins.merge_merge_append]
  · intro S sha now generation r R hOk
    rcases (composeNamespaceRollup_eq_ok S sha .byResourceUID r now generation).mp hOk with ⟨-, rfl⟩
    exact rollupItems_eq_mergeRows r

end Controller
end Kollect
