import Kollect.Controller.Rollup

/-
  What the checksum of a rollup tells.

  The checksum is made from the fingerprints of the shards, before the rows of the namespaces are
  merged. It tells the rows of each shard, and the last merge reads nothing else.

  Key theorems include:
    * `items_of_checksum`
-/

namespace Kollect
namespace Controller

open Collect
open Aggregate
open Export

----
-- Lines
----

/- A name ends at its colon, and a digest has its length. -/
theorem lines_inj {lines lines' : List (Text × Text)}
    (hLines : ∀ line ∈ lines, ':' ∉ line.1 ∧ line.2.length = 64)
    (hLines' : ∀ line ∈ lines', ':' ∉ line.1 ∧ line.2.length = 64)
    (hEq : (lines.flatMap fun line => line.1 ++ ':' :: line.2 ++ ['\n']) =
      lines'.flatMap fun line => line.1 ++ ':' :: line.2 ++ ['\n']) : lines = lines' := by
  induction lines generalizing lines' with
  | nil =>
    cases lines' with
    | nil => rfl
    | cons line' lines' =>
      rw [List.flatMap_nil, List.flatMap_cons] at hEq
      simp at hEq
  | cons line lines ih =>
    cases lines' with
    | nil =>
      rw [List.flatMap_nil, List.flatMap_cons] at hEq
      simp at hEq
    | cons line' lines' =>
      rw [List.forall_mem_cons] at hLines hLines'
      simp only [List.flatMap_cons, List.append_assoc, List.cons_append] at hEq
      rcases (Text.append_sep_inj hLines.1.1 hLines'.1.1).mp hEq with ⟨hName, hRest⟩
      have hLength : line.2.length = line'.2.length := hLines.1.2.trans hLines'.1.2.symm
      rcases List.append_inj hRest hLength with ⟨hDigest, hTail⟩
      have hLater := ih hLines.2 hLines'.2 (by simpa using hTail)
      rw [hLater, Prod.ext hName hDigest]

----
-- Shards
----

/- The floats of the rows are decimal texts. -/
def DecimalRows (store : Store) : Prop :=
  ∀ ns name, ∀ item ∈ store.snapshotTarget ns name, (itemJson item).PlainFloats

theorem plainFloats_itemJson {item : Item}
    (hAttributes : (attributesJson item.attributes).PlainFloats) : (itemJson item).PlainFloats := by
  have hText : ∀ s, (Json.str s).PlainFloats := fun _ => trivial
  unfold itemJson omitEmpty member
  rw [Json.PlainFloats]
  split_ifs
  · simp only [List.cons_append, List.nil_append,
      Json.PlainFloatMembers, hText, hAttributes, and_self]
  · simp only [List.cons_append, List.nil_append,
      Json.PlainFloatMembers, hText, hAttributes, and_self]

section Shards

variable {S : Sorter Text} {sha : Digest} {mode : DedupeMode} {r r' : RollupInput}

theorem plainFloats_shardItems (hDecimal : DecimalRows r.store) {ns : Text} :
    ∀ item ∈ r.shardItems mode ns, (itemJson item).PlainFloats := by
  intro item hItem
  rcases RollupInput.mem_rowsFrom.mp (r.mem_of_mem_shardItems hItem) with ⟨target, -, hRow⟩
  exact hDecimal ns target item hRow

/- Rows are told from the text of their fingerprint. -/
theorem perm_of_rowsText {items items' : List Item}
    (hPlain : ∀ item ∈ items, (itemJson item).PlainFloats)
    (hPlain' : ∀ item ∈ items', (itemJson item).PlainFloats)
    (hText : rowsText S items = rowsText S items') :
    (items.map wireText).Perm (items'.map wireText) := by
  have hEach : ∀ {items : List Item},
      (∀ item ∈ items, (itemJson item).PlainFloats) →
        ∀ document ∈ (Wire.canonicalItems S items).map itemJson, document.PlainFloats := by
    intro items hPlain document hMem
    rcases List.mem_map.mp hMem with ⟨item, hItem, rfl⟩
    exact hPlain item ((S.mem_sortBy itemCanonicalKey).mp hItem)
  have hSorted := Json.encode_arr_inj (hEach hPlain) (hEach hPlain') hText
  rw [List.map_map, List.map_map] at hSorted
  have hOwn : ∀ items : List Item,
      ((Wire.canonicalItems S items).map wireText).Perm (items.map wireText) :=
    fun items => (S.perm_sortBy itemCanonicalKey items).map _
  have hSame : (Wire.canonicalItems S items).map wireText =
      (Wire.canonicalItems S items').map wireText :=
    hSorted
  exact (hOwn items).symm.trans (hSame ▸ hOwn items')

variable (S sha mode r) in
/- All texts that a rollup takes a digest of for its checksum. -/
def hashedTexts : List Text :=
  checksumText S sha mode r :: r.namespaceNames.map fun ns => rowsText S (r.shardItems mode ns)

variable (S sha mode r) in
theorem checksumText_eq : checksumText S sha mode r =
      (r.namespaceNames.map fun ns =>
        (ns, sha.hex (rowsText S (r.shardItems mode ns)))).flatMap
          fun line => line.1 ++ ':' :: line.2 ++ ['\n'] := by
  unfold checksumText
  rw [List.flatMap_map, List.flatMap_map]
  rfl

/- The checksum tells the names and the rows of the shards. -/
theorem shards_of_checksum (hColon : ∀ ns ∈ r.namespaceNames, ':' ∉ ns)
    (hColon' : ∀ ns ∈ r'.namespaceNames, ':' ∉ ns)
    (hDecimal : DecimalRows r.store) (hDecimal' : DecimalRows r'.store)
    (hApart : ∀ text ∈ hashedTexts S sha mode r,
      ∀ text' ∈ hashedTexts S sha mode r', sha.hex text = sha.hex text' → text = text')
    (hSum : sha.hex (checksumText S sha mode r) = sha.hex (checksumText S sha mode r')) :
    r.namespaceNames = r'.namespaceNames ∧ ∀ ns ∈ r.namespaceNames,
        ((r.shardItems mode ns).map wireText).Perm ((r'.shardItems mode ns).map wireText) := by
  have hText := hApart _ List.mem_cons_self _ List.mem_cons_self hSum
  rw [checksumText_eq, checksumText_eq] at hText
  have hLines := lines_inj (List.forall_mem_map.mpr fun ns hNs => ⟨hColon ns hNs, sha.length_hex _⟩)
    (List.forall_mem_map.mpr fun ns hNs => ⟨hColon' ns hNs, sha.length_hex _⟩) hText
  have hNames : r.namespaceNames = r'.namespaceNames := by
    have hFirst := congrArg (List.map Prod.fst) hLines
    rwa [List.map_map, List.map_map, List.map_id'', List.map_id''] at hFirst
    · exact fun _ => rfl
    · exact fun _ => rfl
  refine ⟨hNames, fun ns hNs => ?_⟩
  rw [← hNames, List.map_inj_left] at hLines
  have hDigest := (Prod.ext_iff.mp (hLines ns hNs)).2
  have hRows := hApart _ (List.mem_cons_of_mem _ (List.mem_map_of_mem hNs)) _
    (List.mem_cons_of_mem _ (List.mem_map_of_mem (hNames ▸ hNs))) hDigest
  exact perm_of_rowsText (plainFloats_shardItems hDecimal) (plainFloats_shardItems hDecimal') hRows

----
-- Items
----

theorem nodup_shardItems (ns : Text) :
    ((r.shardItems .byResourceUID ns).map resourceKeyFromItem).Nodup := by
  unfold RollupInput.shardItems
  rw [mergeRows_byResourceUID]
  exact LastWins.nodup_merge _

/-
  The last merge depends on the rows of each shard only, as they are seen through a map that tells
  the resources.
-/
theorem perm_rollupItems {τ : Type} {view : Item → τ}
    (hKey : Function.FactorsThrough resourceKeyFromItem view)
    (hNames : r.namespaceNames = r'.namespaceNames)
    (hShards : ∀ ns ∈ r.namespaceNames,
      ((r.shardItems mode ns).map view).Perm ((r'.shardItems mode ns).map view)) :
    ((rollupItems mode r).map view).Perm ((rollupItems mode r').map view) := by
  have hEach : List.Forall₂ (fun xs ys => (xs.map view).Perm (ys.map view))
      (r.namespaceNames.map (r.shardItems mode))
      (r.namespaceNames.map (r'.shardItems mode)) := by
    rw [List.forall₂_map_left_iff, List.forall₂_map_right_iff, List.forall₂_same]
    exact hShards
  unfold rollupItems
  rw [← hNames, List.flatMap_def, List.flatMap_def]
  cases mode with
  | keepAll =>
    rw [mergeRows_keepAll, mergeRows_keepAll]
    exact LastWins.perm_map_flatten hEach
  | byResourceUID =>
    have hNonempty : Nonempty ResourceUID := ⟨⟨[], []⟩⟩
    rcases (Function.factorsThrough_iff _).mp hKey with ⟨dec, hDec⟩
    rw [mergeRows_byResourceUID, mergeRows_byResourceUID]
    refine ((LastWins.perm_merge_lasting _).map _).trans
      (List.Perm.trans ?_ ((LastWins.perm_merge_lasting _).map _).symm)
    exact LastWins.perm_map_lasting_flatten (fun item => (congrFun hDec item).symm)
      (List.forall_mem_map.mpr fun ns _ => nodup_shardItems ns)
      (List.forall_mem_map.mpr fun ns _ => nodup_shardItems ns) hEach

theorem resourceKeyFromItem_of_wireText : Function.FactorsThrough resourceKeyFromItem wireText := by
  intro a b hText
  have hSame := sameIdentity_of_wireText hText
  unfold resourceKeyFromItem
  rw [hSame.namespace_, hSame.uid]

/-
  Two rollups with one checksum export the same rows. The rollups may be of other generations,
  times, engines and stores.
-/
theorem items_of_checksum {now now' : Instant} {generation generation' : Int} {R R' : ClusterRollup}
    (hOk : composeNamespaceRollup S sha now generation mode r = .ok R)
    (hOk' : composeNamespaceRollup S sha now' generation' mode r' = .ok R')
    (hColon : ∀ ns ∈ r.namespaceNames, ':' ∉ ns) (hColon' : ∀ ns ∈ r'.namespaceNames, ':' ∉ ns)
    (hDecimal : DecimalRows r.store) (hDecimal' : DecimalRows r'.store)
    (hApart : ∀ text ∈ hashedTexts S sha mode r,
      ∀ text' ∈ hashedTexts S sha mode r', sha.hex text = sha.hex text' → text = text')
    (hSum : R.checksum = R'.checksum) : (R.items.map wireText).Perm (R'.items.map wireText) := by
  rcases (composeNamespaceRollup_eq_ok S sha mode r now generation).mp hOk with ⟨-, rfl⟩
  rcases (composeNamespaceRollup_eq_ok S sha mode r' now' generation').mp hOk' with ⟨-, rfl⟩
  rcases shards_of_checksum hColon hColon' hDecimal hDecimal' hApart hSum with ⟨hNames, hShards⟩
  exact perm_rollupItems resourceKeyFromItem_of_wireText hNames hShards

end Shards

----
-- Two Targets In One Namespace
----

def auditTarget : KollectClusterTarget := { platformTarget with name := "audit" }

def inTeamA (ct : KollectClusterTarget) : TargetState :=
  newTargetState (syntheticTarget ct "team-a") deploymentProfile noOptions [] [("team-a" : Text)]

def rollupEngine : Engine :=
  { Engine.fresh twoNamespaces with
    targets := GoMap.ofList
        [("team-a/deployments", inTeamA platformTarget), ("team-a/audit", inTeamA auditTarget)] }

def auditRow (uid : Text) : Item := { teamRow with targetName := "audit", uid := uid }

def twoRows (uid : Text) : Store := (Store.empty.upsert teamRow).upsert (auditRow uid)

def listing (uid : Text) (targets : List Text) : RollupInput :=
  ⟨rollupEngine, twoRows uid, targets, []⟩

theorem row?_twoRows {uid ns name uid' : Text} {item : Item}
    (hRow : (twoRows uid).row? ns name uid' = some item) :
    item = teamRow ∨ item = auditRow uid := by
  unfold twoRows at hRow
  rw [Store.row?_upsert, Store.row?_upsert] at hRow
  split_ifs at hRow
  · exact .inr (Option.some.inj hRow).symm
  · exact .inl (Option.some.inj hRow).symm
  · cases hRow

theorem decimalRows_twoRows (uid : Text) : DecimalRows (twoRows uid) := by
  intro ns name item hItem
  rcases Store.mem_snapshotTarget.mp hItem with ⟨uid', hRow⟩
  rcases row?_twoRows hRow with rfl | rfl
  · exact plainFloats_itemJson trivial
  · exact plainFloats_itemJson trivial

/- The order in the list is not in the checksum. -/
theorem listings_with_one_checksum :
    ∃ R R' : ClusterRollup, composeNamespaceRollup Sorter.stable paddedDigest leapDay 1
          .byResourceUID (listing "uid-2" ["deployments", "audit"]) = .ok R ∧
        composeNamespaceRollup Sorter.stable paddedDigest leapDay 2 .byResourceUID
          (listing "uid-2" ["audit", "deployments"]) = .ok R' ∧
        R.checksum = R'.checksum ∧ (R.items.map wireText).Perm (R'.items.map wireText) := by
  have hOk := (composeNamespaceRollup_eq_ok Sorter.stable paddedDigest .byResourceUID
    (listing "uid-2" ["deployments", "audit"]) leapDay 1).mpr
    ⟨by unfold Writable; decide +kernel, rfl⟩
  have hOk' := (composeNamespaceRollup_eq_ok Sorter.stable paddedDigest .byResourceUID
    (listing "uid-2" ["audit", "deployments"]) leapDay 2).mpr
    ⟨by unfold Writable; decide +kernel, rfl⟩
  refine ⟨_, _, hOk, hOk', ?_, ?_⟩
  · decide +kernel
  · apply items_of_checksum hOk hOk'
    · decide +kernel
    · decide +kernel
    · exact decimalRows_twoRows _
    · exact decimalRows_twoRows _
    · decide +kernel
    · decide +kernel

end Controller
end Kollect
