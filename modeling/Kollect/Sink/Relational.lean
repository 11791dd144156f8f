import Kollect.Export.Envelope
import Kollect.Foundation.Table

/-
  The rows that the database sinks store for the items of an inventory
  (`sink/postgres/export_plan.go`, `sink/mongodb/export_plan.go`).

  A row belongs to a scope: an inventory namespace, an inventory name and a cluster. What tells rows
  apart is the inventory, the target and the UID of the resource; the cluster is not part of the
  key.
-/

namespace Kollect
namespace Sink

open Collect
open Export

----
-- Rows And Scopes
----

structure StoredRow where
  inventoryNamespace : Text
  inventoryName : Text
  targetName : Text
  sourceUID : Text
  cluster : Text
  resourceNamespace : Text
  payload : Json
  exportedAt : Nat
deriving DecidableEq

/- The columns that tell rows apart. -/
structure RowKey where
  inventoryNamespace : Text
  inventoryName : Text
  targetName : Text
  sourceUID : Text
deriving DecidableEq

def rowKey (r : StoredRow) : RowKey where
  inventoryNamespace := r.inventoryNamespace
  inventoryName := r.inventoryName
  targetName := r.targetName
  sourceUID := r.sourceUID

/- The rows of a sink's table or collection. -/
abbrev StoredTable := Table StoredRow RowKey rowKey

/- What the user sees as one inventory of one cluster. -/
structure ExportScope where
  inventoryNamespace : Text
  inventoryName : Text
  cluster : Text
deriving DecidableEq

def scopeOf (r : StoredRow) : ExportScope where
  inventoryNamespace := r.inventoryNamespace
  inventoryName := r.inventoryName
  cluster := r.cluster

/- An item without a namespace counts to the inventory's. -/
def resourceNamespace (invNS : Text) (item : Item) : Text :=
  if item.namespace_ = [] then invNS else item.namespace_

def itemRow (s : ExportScope) (exportedAt : Nat) (item : Item) : StoredRow where
  inventoryNamespace := s.inventoryNamespace
  inventoryName := s.inventoryName
  targetName := item.targetName
  sourceUID := item.uid
  cluster := s.cluster
  resourceNamespace := resourceNamespace s.inventoryNamespace item
  payload := itemJson item
  exportedAt := exportedAt

def itemKey (item : Item) : Text × Text := (item.targetName, item.uid)

----
-- Exactness And Frame
----

/- The rows of a scope are these, each once. -/
def HoldsExactly (t : StoredTable) (s : ExportScope) (rows : List StoredRow) : Prop :=
  (t.rows.filter (fun r => decide (scopeOf r = s))).Perm rows

/- The rows of every other scope are as before. -/
def OthersUnchanged (t t' : StoredTable) (s : ExportScope) : Prop :=
  ∀ r, scopeOf r ≠ s → (r ∈ t'.rows ↔ r ∈ t.rows)

/- No other cluster has a row under the key of an item. -/
def NoForeignRow (t : StoredTable) (s : ExportScope) (items : List Item) : Prop :=
  ∀ r ∈ t.rows, r.inventoryNamespace = s.inventoryNamespace →
    r.inventoryName = s.inventoryName → r.cluster ≠ s.cluster →
    (r.targetName, r.sourceUID) ∉ items.map itemKey

instance
    (t : StoredTable) (s : ExportScope) (items : List Item) : Decidable (NoForeignRow t s items) :=
  inferInstanceAs (Decidable (∀ r ∈ t.rows, _ → _ → _ → _))

section Rows

variable {s : ExportScope} {items : List Item} {exportedAt : Nat}

theorem rowKey_itemRow (item : Item) : rowKey (itemRow s exportedAt item) =
      ⟨s.inventoryNamespace, s.inventoryName, item.targetName, item.uid⟩ := rfl

theorem scopeOf_itemRow (item : Item) : scopeOf (itemRow s exportedAt item) = s := rfl

theorem rowKey_eq_itemRow_iff {r : StoredRow} {item : Item} :
    rowKey r = rowKey (itemRow s exportedAt item) ↔ r.inventoryNamespace = s.inventoryNamespace ∧
        r.inventoryName = s.inventoryName ∧ (r.targetName, r.sourceUID) = itemKey item := by
  rw [rowKey_itemRow, rowKey, RowKey.mk.injEq, itemKey, Prod.mk.injEq]

theorem rowKey_mem_iff {r : StoredRow} : rowKey r ∈ (items.map (itemRow s exportedAt)).map rowKey ↔
      r.inventoryNamespace = s.inventoryNamespace ∧ r.inventoryName = s.inventoryName ∧
        (r.targetName, r.sourceUID) ∈ items.map itemKey := by
  rw [List.map_map]
  constructor
  · intro hMem
    rcases List.mem_map.mp hMem with ⟨item, hItem, hKey⟩
    rcases rowKey_eq_itemRow_iff.mp hKey.symm with ⟨hNamespace, hName, hPair⟩
    refine ⟨hNamespace, hName, ?_⟩
    rw [hPair]
    exact List.mem_map_of_mem hItem
  · rintro ⟨hNamespace, hName, hPair⟩
    rcases List.mem_map.mp hPair with ⟨item, hItem, hKey⟩
    refine List.mem_map.mpr ⟨item, hItem, ?_⟩
    exact (rowKey_eq_itemRow_iff.mpr ⟨hNamespace, hName, hKey.symm⟩).symm

theorem nodup_rowKeys (hDistinct : (items.map itemKey).Nodup) :
    ((items.map (itemRow s exportedAt)).map rowKey).Nodup := by
  rw [List.map_map]
  refine List.Nodup.of_map (fun k : RowKey => (k.targetName, k.sourceUID)) ?_
  rw [List.map_map]
  exact hDistinct

/- Rows of the items in place of the rows with their keys, and no other row of the scope. -/
structure Replaced
    (t t' : StoredTable) (s : ExportScope) (items : List Item) (exportedAt : Nat) : Prop where
  mem_iff : ∀ r, r ∈ t'.rows ↔ r ∈ items.map (itemRow s exportedAt) ∨
      r ∈ t.rows ∧ rowKey r ∉ (items.map (itemRow s exportedAt)).map rowKey ∧ scopeOf r ≠ s

theorem replaced_deleteWhere {t u : StoredTable} {isStale : StoredRow → Bool}
    (hPlaced : ∀ r, r ∈ u.rows ↔ r ∈ items.map (itemRow s exportedAt) ∨
        r ∈ t.rows ∧ rowKey r ∉ (items.map (itemRow s exportedAt)).map rowKey)
    (hStale : ∀ r, isStale r = true ↔
      scopeOf r = s ∧ (r.targetName, r.sourceUID) ∉ items.map itemKey) :
    Replaced t (u.deleteWhere isStale) s items exportedAt := by
  refine ⟨fun r => ?_⟩
  rw [Table.mem_deleteWhere, hPlaced r, ← Bool.not_eq_true, hStale r]
  constructor
  · rintro ⟨hNew | ⟨hOld, hKey⟩, hKeep⟩
    · exact .inl hNew
    · refine .inr ⟨hOld, hKey, fun hScope => ?_⟩
      refine hKeep ⟨hScope, fun hPair => hKey ?_⟩
      refine rowKey_mem_iff.mpr ⟨?_, ?_, hPair⟩
      · exact congrArg ExportScope.inventoryNamespace hScope
      · exact congrArg ExportScope.inventoryName hScope
  · rintro (hNew | ⟨hOld, hKey, hScope⟩)
    · refine ⟨.inl hNew, fun hGone => hGone.2 ?_⟩
      exact (rowKey_mem_iff.mp (List.mem_map_of_mem hNew)).2.2
    · exact ⟨.inr ⟨hOld, hKey⟩, fun hGone => hScope hGone.1⟩

/- The scope then holds exactly the rows of the items. -/
theorem Replaced.holdsExactly {t t' : StoredTable} (hReplaced : Replaced t t' s items exportedAt)
    (hDistinct : (items.map itemKey).Nodup) :
    HoldsExactly t' s (items.map (itemRow s exportedAt)) := by
  refine (List.perm_ext_iff_of_nodup (t'.rows_nodup.filter _)
    (List.Nodup.of_map rowKey (nodup_rowKeys hDistinct))).mpr fun r => ?_
  rw [List.mem_filter, decide_eq_true_eq, hReplaced.mem_iff r]
  constructor
  · rintro ⟨hNew | hOld, hScope⟩
    · exact hNew
    · exact absurd hScope hOld.2.2
  · intro hNew
    refine ⟨.inl hNew, ?_⟩
    rcases List.mem_map.mp hNew with ⟨item, -, rfl⟩
    exact scopeOf_itemRow item

/- Only a row of another cluster can have been taken. -/
theorem Replaced.othersUnchanged_iff
    {t t' : StoredTable} (hReplaced : Replaced t t' s items exportedAt) :
    OthersUnchanged t t' s ↔ NoForeignRow t s items := by
  have hOther : ∀ r, r ∈ items.map (itemRow s exportedAt) → scopeOf r = s := by
    intro r hNew
    rcases List.mem_map.mp hNew with ⟨item, -, rfl⟩
    exact scopeOf_itemRow item
  constructor
  · intro hUnchanged r hR hNamespace hName hCluster hPair
    have hScope : scopeOf r ≠ s := fun hEq => hCluster (congrArg ExportScope.cluster hEq)
    rcases (hReplaced.mem_iff r).mp ((hUnchanged r hScope).mpr hR) with hNew | ⟨-, hKey, -⟩
    · exact hScope (hOther r hNew)
    · exact hKey (rowKey_mem_iff.mpr ⟨hNamespace, hName, hPair⟩)
  · intro hForeign r hScope
    rw [hReplaced.mem_iff r]
    constructor
    · rintro (hNew | hOld)
      · exact absurd (hOther r hNew) hScope
      · exact hOld.1
    · intro hR
      refine .inr ⟨hR, fun hKey => ?_, hScope⟩
      rcases rowKey_mem_iff.mp hKey with ⟨hNamespace, hName, hPair⟩
      refine hForeign r hR hNamespace hName ?_ hPair
      intro hCluster
      refine hScope ?_
      rw [scopeOf, hNamespace, hName, hCluster]

end Rows

end Sink
end Kollect
