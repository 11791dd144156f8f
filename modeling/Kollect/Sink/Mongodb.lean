import Kollect.Foundation.Run
import Kollect.PathValidate
import Kollect.Sink.Relational

/-
  Exports to a MongoDB collection (`sink/mongodb/backend.go`, `sink/mongodb/export_plan.go`).

  An export replaces or inserts one document for each item and then deletes the documents of its
  scope that no item stands for. The filter of a replacement has the cluster, the unique index of
  the collection has not: an item whose key another cluster holds finds no document to replace, and
  its insertion breaks the index.

  There is no transaction. What was replaced before such an item stays.

  Key theorems include:
    * `exportItems_exact_iff_noForeign`
    * `exports_exact_iff`
-/

namespace Kollect
namespace Sink
namespace Mongodb

open Collect

----
-- Filters
----

def newExportScope (objectPath cluster : Text) : ExportScope :=
  let (invNS, invName) := PathValidate.inventoryFromObjectPath objectPath
  ⟨invNS, invName, cluster⟩

def upsertFilter (s : ExportScope) (item : Item) (r : StoredRow) : Bool :=
  decide (scopeOf r = s) && decide (r.targetName = item.targetName) &&
    decide (r.sourceUID = item.uid)

/- The documents of the scope that match no item. -/
def staleDeleteFilter (s : ExportScope) (items : List Item) (r : StoredRow) : Bool :=
  decide (scopeOf r = s) &&
    !items.any (fun item =>
      decide (r.targetName = item.targetName) &&
        decide (r.sourceUID = item.uid))

----
-- Exporting
----

/- Replace one document after another, up to an error. -/
def replaceItems (s : ExportScope) (exportedAt : Nat) : StoredTable → List Item → StoredTable × Bool
  | coll, [] => (coll, true)
  | coll, item :: items =>
    match coll.replaceOne (upsertFilter s item) (itemRow s exportedAt item) with
    | none => (coll, false)
    | some coll => replaceItems s exportedAt coll items

/- An export by some sink; its items are told apart. -/
structure ExportCall where
  objectPath : Text
  cluster : Text
  items : List Item
  exportedAt : Nat
  distinct : (items.map itemKey).Nodup

def ExportCall.scope (call : ExportCall) : ExportScope :=
  newExportScope call.objectPath call.cluster

variable (coll : StoredTable) (call : ExportCall)

/- The collection afterwards, and whether the call succeeds. -/
def exportItems : StoredTable × Bool :=
  match replaceItems call.scope call.exportedAt coll call.items with
  | (coll, false) => (coll, false)
  | (coll, true) => (coll.deleteWhere (staleDeleteFilter call.scope call.items), true)

def exportStep : StoredTable := (exportItems coll call).1

/- The call succeeds and does what an export is for. -/
def ExportExact : Prop :=
  (exportItems coll call).2 = true ∧ HoldsExactly (exportStep coll call) call.scope
      (call.items.map (itemRow call.scope call.exportedAt)) ∧
    OthersUnchanged coll (exportStep coll call) call.scope

/- No other cluster holds the key of an exported item. -/
def KeysFree : Prop :=
  NoForeignRow coll call.scope call.items

----
-- Replacing Documents
----

section Replace

variable {s : ExportScope} {exportedAt : Nat}

variable {item : Item}

theorem upsertFilter_eq_true {r : StoredRow} :
    upsertFilter s item r = true ↔ scopeOf r = s ∧ (r.targetName, r.sourceUID) = itemKey item := by
  simp [upsertFilter, itemKey, and_assoc]

variable {items : List Item}

theorem staleDeleteFilter_eq_true {r : StoredRow} : staleDeleteFilter s items r = true ↔
      scopeOf r = s ∧ (r.targetName, r.sourceUID) ∉ items.map itemKey := by
  simp only [staleDeleteFilter, Bool.and_eq_true,
    decide_eq_true_eq, Bool.not_eq_true', List.any_eq_false,
    List.mem_map, itemKey, Prod.mk.injEq, not_exists, not_and]
  refine and_congr_right fun _ => forall_congr' fun item => imp_congr_right fun _ => ?_
  exact imp_congr eq_comm (not_congr eq_comm)

theorem rowKey_of_upsertFilter
    (item : Item) (r : StoredRow) (hMatch : upsertFilter s item r = true) :
    rowKey r = rowKey (itemRow s exportedAt item) := by
  rcases upsertFilter_eq_true.mp hMatch with ⟨hScope, hPair⟩
  refine rowKey_eq_itemRow_iff.mpr ⟨?_, ?_, hPair⟩
  · exact congrArg ExportScope.inventoryNamespace hScope
  · exact congrArg ExportScope.inventoryName hScope

variable {coll : StoredTable}

theorem replaceOne_isSome_iff :
    (coll.replaceOne (upsertFilter s item) (itemRow s exportedAt item)).isSome ↔
      NoForeignRow coll s [item] := by
  rw [Table.replaceOne_isSome (rowKey_of_upsertFilter item)]
  constructor
  · intro hAll r hR hNamespace hName hCluster hPair
    have hKey : rowKey r = rowKey (itemRow s exportedAt item) :=
      rowKey_eq_itemRow_iff.mpr ⟨hNamespace, hName, List.mem_singleton.mp hPair⟩
    have hScope := (upsertFilter_eq_true.mp (hAll r hR hKey)).1
    exact hCluster (congrArg ExportScope.cluster hScope)
  · intro hFree r hR hKey
    rcases rowKey_eq_itemRow_iff.mp hKey with ⟨hNamespace, hName, hPair⟩
    refine upsertFilter_eq_true.mpr ⟨?_, hPair⟩
    by_contra hScope
    refine hFree r hR hNamespace hName ?_ (List.mem_singleton.mpr hPair)
    intro hCluster
    refine hScope ?_
    rw [scopeOf, hNamespace, hName, hCluster]

theorem noForeignRow_replaceOne {coll' : StoredTable}
    (hReplace : coll.replaceOne (upsertFilter s item) (itemRow s exportedAt item) = some coll')
    (items : List Item) : NoForeignRow coll' s items ↔ NoForeignRow coll s items := by
  have hMem := fun r => Table.mem_replaceOne (rowKey_of_upsertFilter item) hReplace (r := r)
  have hFree : NoForeignRow coll s [item] :=
    replaceOne_isSome_iff.mp (Option.isSome_of_mem hReplace)
  constructor
  · intro hNew r hR hNamespace hName hCluster
    refine hNew r ((hMem r).mpr (.inr ⟨hR, ?_⟩)) hNamespace hName hCluster
    intro hKey
    refine hFree r hR hNamespace hName hCluster ?_
    exact List.mem_singleton.mpr (rowKey_eq_itemRow_iff.mp hKey).2.2
  · intro hOld r hR hNamespace hName hCluster
    rcases (hMem r).mp hR with rfl | hR
    · exact absurd rfl hCluster
    · exact hOld r hR.1 hNamespace hName hCluster

theorem noForeignRow_cons : NoForeignRow coll s (item :: items) ↔
      NoForeignRow coll s [item] ∧ NoForeignRow coll s items := by
  simp only [NoForeignRow, List.map_cons, List.map_nil,
    List.mem_cons, List.not_mem_nil, or_false, not_or]
  constructor
  · intro hAll
    exact ⟨fun r hR hNamespace hName hCluster => (hAll r hR hNamespace hName hCluster).1,
      fun r hR hNamespace hName hCluster => (hAll r hR hNamespace hName hCluster).2⟩
  · rintro ⟨hHead, hTail⟩ r hR hNamespace hName hCluster
    exact ⟨hHead r hR hNamespace hName hCluster, hTail r hR hNamespace hName hCluster⟩

/- All replacements succeed exactly when no key is held. -/
theorem replaceItems_succeeds_iff :
    (replaceItems s exportedAt coll items).2 = true ↔ NoForeignRow coll s items := by
  induction items generalizing coll with
  | nil => simp [replaceItems, NoForeignRow]
  | cons item items ih =>
    rw [noForeignRow_cons, ← @replaceOne_isSome_iff s exportedAt]
    unfold replaceItems
    cases hReplace : coll.replaceOne (upsertFilter s item) (itemRow s exportedAt item) with
    | none => simp
    | some coll' =>
      simp only [Option.isSome_some, true_and]
      rw [ih, noForeignRow_replaceOne hReplace]

/- After them the documents of the items are in place. -/
theorem mem_replaceItems (hDistinct : (items.map itemKey).Nodup)
    (hOk : (replaceItems s exportedAt coll items).2 = true) (r : StoredRow) :
    r ∈ (replaceItems s exportedAt coll items).1.rows ↔ r ∈ items.map (itemRow s exportedAt) ∨
        r ∈ coll.rows ∧ rowKey r ∉ (items.map (itemRow s exportedAt)).map rowKey := by
  induction items generalizing coll with
  | nil => simp [replaceItems]
  | cons item items ih =>
    have hKeys := @nodup_rowKeys s (item :: items) exportedAt hDistinct
    rw [List.map_cons, List.map_cons, List.nodup_cons] at hKeys
    unfold replaceItems at hOk ⊢
    cases hReplace : coll.replaceOne (upsertFilter s item) (itemRow s exportedAt item) with
    | none => simp [hReplace] at hOk
    | some coll' =>
      simp only [hReplace] at hOk ⊢
      rw [ih (List.nodup_cons.mp hDistinct).2 hOk,
        Table.mem_replaceOne (rowKey_of_upsertFilter item) hReplace,
        List.map_cons, List.map_cons, List.mem_cons, List.mem_cons, not_or]
      constructor
      · rintro (hNew | ⟨hRow | hOld, hOut⟩)
        · exact .inl (.inr hNew)
        · exact .inl (.inl hRow)
        · exact .inr ⟨hOld.1, hOld.2, hOut⟩
      · rintro ((rfl | hNew) | ⟨hOld, hNe, hOut⟩)
        · exact .inr ⟨.inl rfl, hKeys.1⟩
        · exact .inl hNew
        · exact .inr ⟨.inr ⟨hOld, hNe⟩, hOut⟩

end Replace

----
-- Runs Of Exports
----

theorem exportItems_succeeds_iff (coll : StoredTable) (call : ExportCall) :
    (exportItems coll call).2 = true ↔ KeysFree coll call := by
  rw [KeysFree, ← @replaceItems_succeeds_iff call.scope call.exportedAt]
  unfold exportItems
  split <;> rename_i hReplace <;> simp [hReplace]

theorem replaced_exportStep {coll : StoredTable} {call : ExportCall} (hFree : KeysFree coll call) :
    Replaced coll (exportStep coll call) call.scope call.items call.exportedAt := by
  have hOk : (replaceItems call.scope call.exportedAt coll call.items).2 = true :=
    replaceItems_succeeds_iff.mpr hFree
  have hStep : exportStep coll call = (replaceItems call.scope call.exportedAt coll
        call.items).1.deleteWhere (staleDeleteFilter call.scope call.items) := by
    unfold exportStep exportItems
    split <;> rename_i hReplace
    · rw [hReplace] at hOk
      cases hOk
    · rw [hReplace]
  rw [hStep]
  exact replaced_deleteWhere (mem_replaceItems call.distinct hOk)
    (fun _ => staleDeleteFilter_eq_true)

theorem exportItems_exact_iff_noForeign (coll : StoredTable) (call : ExportCall) :
    ExportExact coll call ↔ KeysFree coll call := by
  constructor
  · intro hExact
    exact (exportItems_succeeds_iff coll call).mp hExact.1
  · intro hFree
    have hReplaced := replaced_exportStep hFree
    exact ⟨(exportItems_succeeds_iff coll call).mpr hFree, hReplaced.holdsExactly call.distinct,
      hReplaced.othersUnchanged_iff.mpr hFree⟩

/-
  Every export of a run succeeds and is exact exactly when, before each of them, no other cluster of
  its inventory holds the key of an exported item.
-/
theorem exports_exact_iff (coll : StoredTable) (calls : List ExportCall) :
    Run.Along exportStep ExportExact coll calls ↔ Run.Along exportStep KeysFree coll calls := by
  constructor
  · exact Run.Along.imp fun coll call => (exportItems_exact_iff_noForeign coll call).mp
  · exact Run.Along.imp fun coll call => (exportItems_exact_iff_noForeign coll call).mpr

/- An export of one resource by the sink of a cluster. -/
def sampleCall (cluster : Text) : ExportCall where
  objectPath := "inventory/team/app.json"
  cluster := cluster
  items :=
    [{ targetNamespace := "team", targetName := "web"
       namespace_ := "shop", name := "cart", group := []
       version := "v1", kind := "Pod", uid := "u1"
       attributes := ∅ }]
  exportedAt := 1
  distinct := List.nodup_singleton _

/- Renaming the cluster makes the next export fail. -/
theorem renamed_cluster_breaks_index : (exportItems Table.empty (sampleCall "east")).2 = true ∧
    (exportItems (exportStep Table.empty (sampleCall "east")) (sampleCall "west")).2 = false := by
  decide +kernel

end Mongodb
end Sink
end Kollect
