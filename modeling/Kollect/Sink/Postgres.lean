import Kollect.PathValidate
import Kollect.Sink.Relational

/-
  Exports to a Postgres table (`sink/postgres/backend.go`, `bulk_export.go`, `export_plan.go`).

  An export upserts one row for each item and then deletes the rows of its scope that no item stands
  for. The conflict of an upsert is on the primary key, which does not have the cluster: an upsert
  takes over the row that another cluster has under the same key.

  Key theorems include:
    * `replaced_exportItems`
    * `exportItems_exact_iff`
-/

namespace Kollect
namespace Sink
namespace Postgres

open Collect

----
-- Plans
----

def buildUpsertRows (s : ExportScope) (items : List Item) (exportedAt : Nat) : List StoredRow :=
  items.map (itemRow s exportedAt)

structure StaleDeletePlan where
  deleteAll : Bool
  targetNames : List Text
  sourceUIDs : List Text

def buildStaleDeletePlan (items : List Item) : StaleDeletePlan :=
  if items = [] then ⟨true, [], []⟩
  else ⟨false, items.map Item.targetName, items.map Item.uid⟩

----
-- Exporting
----

def bulkUpsertThreshold : Nat := 32

inductive ExportError where
  | bulkUpsertMergeFailed
deriving DecidableEq, Repr

variable (t : StoredTable)

def rowUpsertItems (rows : List StoredRow) : Except ExportError StoredTable :=
  .ok (t.upsertAll rows)

/- One statement for all rows of a staging table, which must not meet one row of the table twice. -/
def bulkUpsertItems (rows : List StoredRow) : Except ExportError StoredTable :=
  if (rows.map rowKey).Nodup then .ok (t.upsertAll rows)
  else .error .bulkUpsertMergeFailed

def upsertItems (s : ExportScope) (items : List Item)
    (exportedAt : Nat) : Except ExportError StoredTable :=
  if bulkUpsertThreshold ≤ items.length then bulkUpsertItems t (buildUpsertRows s items exportedAt)
  else rowUpsertItems t (buildUpsertRows s items exportedAt)

/- The rows of the scope that no exported pair names. -/
def isStale (s : ExportScope) (plan : StaleDeletePlan) (r : StoredRow) : Bool :=
  decide (scopeOf r = s) &&
    (plan.deleteAll || decide ((r.targetName, r.sourceUID) ∉ plan.targetNames.zip plan.sourceUIDs))

def deleteStaleRows (s : ExportScope) (items : List Item) : StoredTable :=
  t.deleteWhere (isStale s (buildStaleDeletePlan items))

/- The inventory is read from the object path. -/
def exportScope (cluster objectPath : Text) : ExportScope :=
  let (invNS, invName) := PathValidate.inventoryFromObjectPath objectPath
  ⟨invNS, invName, cluster⟩

/- Both statements run in one transaction. -/
def exportItems (cluster objectPath : Text) (items : List Item)
    (exportedAt : Nat) : Except ExportError StoredTable := do
  let s := exportScope cluster objectPath
  let t ← upsertItems t s items exportedAt
  pure (deleteStaleRows t s items)

----
-- What An Export Leaves
----

variable {items : List Item}

theorem upsertItems_eq (hDistinct : (items.map itemKey).Nodup) (t : StoredTable) (s : ExportScope)
    (exportedAt : Nat) :
    upsertItems t s items exportedAt = .ok (t.upsertAll (items.map (itemRow s exportedAt))) := by
  unfold upsertItems
  split_ifs
  · exact if_pos (nodup_rowKeys hDistinct)
  · rfl

theorem isStale_eq_true {s : ExportScope} {r : StoredRow} :
    isStale s (buildStaleDeletePlan items) r = true ↔
      scopeOf r = s ∧ (r.targetName, r.sourceUID) ∉ items.map itemKey := by
  have hZip : (items.map Item.targetName).zip (items.map Item.uid) = items.map itemKey := by
    rw [List.zip_map']
    rfl
  unfold isStale buildStaleDeletePlan
  split_ifs with hEmpty
  · simp [hEmpty]
  · simp [hZip]

theorem replaced_exportItems (cluster objectPath : Text)
    (hDistinct : (items.map itemKey).Nodup) (exportedAt : Nat) :
    ∃ t', exportItems t cluster objectPath items exportedAt = .ok t' ∧
      Replaced t t' (exportScope cluster objectPath) items
        exportedAt := by
  refine ⟨_, ?_, replaced_deleteWhere (fun _ => Table.mem_upsertAll (nodup_rowKeys hDistinct))
    (fun _ => isStale_eq_true)⟩
  rw [exportItems, upsertItems_eq hDistinct]
  rfl

/-
  A successful export leaves exactly the rows of its items in its scope; the other scopes are
  unchanged exactly when no other cluster of the inventory has a row under a key that the export
  writes.
-/
theorem exportItems_exact_iff (t : StoredTable) (cluster objectPath : Text)
    (items : List Item) (exportedAt : Nat) (hDistinct : (items.map itemKey).Nodup) :
    ∃ t', exportItems t cluster objectPath items exportedAt = .ok t' ∧
      HoldsExactly t' (exportScope cluster objectPath)
        (buildUpsertRows (exportScope cluster objectPath) items exportedAt) ∧
      (OthersUnchanged t t' (exportScope cluster objectPath) ↔
        NoForeignRow t (exportScope cluster objectPath) items) := by
  rcases replaced_exportItems t cluster objectPath hDistinct
    exportedAt with ⟨t', hExport, hReplaced⟩
  exact ⟨t', hExport, hReplaced.holdsExactly hDistinct, hReplaced.othersUnchanged_iff⟩

def sampleItem (uid : Text) : Item where
  targetNamespace := "team"
  targetName := "web"
  namespace_ := "shop"
  name := "cart"
  group := []
  version := "v1"
  kind := "Pod"
  uid := uid
  attributes := ∅

theorem fresh_uid_leaves_other_cluster :
    ∃ t, exportItems Table.empty "east" "inventory/team/app.json" [sampleItem "u1"] 1 = .ok t ∧
      ∃ t', exportItems t "west" "inventory/team/app.json" [sampleItem "u2"] 2 = .ok t' ∧
        OthersUnchanged t t' ⟨"team", "app", "west"⟩ := by
  refine ⟨_, rfl, ?_⟩
  rcases exportItems_exact_iff _ "west" "inventory/team/app.json" [sampleItem "u2"] 2
    (by decide) with ⟨t', hExport, -, hUnchanged⟩
  exact ⟨t', hExport, hUnchanged.mpr (by decide +kernel)⟩

/- The second cluster takes the first one's row. -/
theorem second_cluster_takes_row : (exportItems Table.empty "east" "inventory/team/app.json"
        [sampleItem "u1"] 1).map (fun t => t.rows.map scopeOf) = .ok [⟨"team", "app", "east"⟩] ∧
    (exportItems Table.empty "east" "inventory/team/app.json" [sampleItem "u1"] 1 >>= fun t =>
      exportItems t "west" "inventory/team/app.json"
        [sampleItem "u1"] 2).map (fun t => t.rows.map scopeOf) = .ok [⟨"team", "app", "west"⟩] := by
  decide +kernel

end Postgres
end Sink
end Kollect
