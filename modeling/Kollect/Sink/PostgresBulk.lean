import Kollect.Sink.Postgres

/-
  The two ways to write the rows of a Postgres export (`sink/postgres/bulk_export.go`).

  A short list is written with one statement for each row, a long one is copied to a staging table
  and merged by one statement, which may read the staged rows in any order and must not touch one
  row of the table twice.

  Key theorems include:
    * `upsertItems_of_storable`
    * `bulk_agrees_iff`
-/

namespace Kollect
namespace Sink
namespace Postgres

open Collect
open Export

----
-- The Two Ways
----

/- The errors of the server are those of the rows. -/
inductive UpsertError where
  | marshalItem (value : Text)
  | upsertFailed
  | createStagingFailed
  | copyFailed
  | mergeFailed
deriving DecidableEq, Repr

/- An item that JSON has no text for is found first. -/
def marshalRows (s : ExportScope) (items : List Item)
    (exportedAt : Nat) : Except UpsertError (List StoredRow) :=
  match items.findSome? fun item => (itemJson item).unsupported? with
  | some value => .error (.marshalItem value)
  | none => .ok (buildUpsertRows s items exportedAt)

variable (accepts : StoredRow → Bool)

/- `accepts` tells the rows whose values the columns take. -/
def upsertRow (t : StoredTable) (row : StoredRow) : Except UpsertError StoredTable :=
  if accepts row then .ok (t.upsert row) else .error .upsertFailed

def rowUpsert (t : StoredTable) (s : ExportScope) (items : List Item)
    (exportedAt : Nat) : Except UpsertError StoredTable := do
  let rows ← marshalRows s items exportedAt
  rows.foldlM (upsertRow accepts) t

/- `COPY` to the staging table. -/
def copyRows (rows : List StoredRow) : Except UpsertError (List StoredRow) :=
  if rows.all accepts then .ok rows else .error .copyFailed

/-
  `staging` is whether the server creates the staging table, and `reads` the order in which the
  staged rows are read.
-/
def bulkUpsert (staging : Bool) (accepts : StoredRow → Bool)
    (reads : List StoredRow → List StoredRow) (t : StoredTable)
    (s : ExportScope) (items : List Item) (exportedAt : Nat) : Except UpsertError StoredTable :=
  if staging = false then .error .createStagingFailed
  else do
    let rows ← marshalRows s items exportedAt
    let staged ← copyRows accepts rows
    match t.insertSelect (reads staged) with
    | some t => .ok t
    | none => .error .mergeFailed

/- One content of the table, or an error in both ways. -/
def SameOutcome : Except UpsertError StoredTable → Except UpsertError StoredTable → Prop
  | .ok t, .ok t' => ∀ r, r ∈ t.rows ↔ r ∈ t'.rows
  | .error _, .error _ => True
  | _, _ => False

/- Every item has a text and every row is accepted. -/
def Storable (s : ExportScope) (items : List Item) (exportedAt : Nat) : Prop :=
  (∀ item ∈ items, (itemJson item).unsupported? = none) ∧
    ∀ row ∈ buildUpsertRows s items exportedAt, accepts row = true

----
-- What Each Way Does
----

section Ways

variable {staging : Bool} {accepts : StoredRow → Bool} {reads : List StoredRow → List StoredRow}
variable {t : StoredTable} {s : ExportScope} {items : List Item} {exportedAt : Nat}

variable {rows : List StoredRow}

theorem marshalRows_eq_ok : marshalRows s items exportedAt = .ok rows ↔
      (∀ item ∈ items, (itemJson item).unsupported? = none) ∧
        rows = buildUpsertRows s items exportedAt := by
  rw [← List.findSome?_eq_none_iff]
  unfold marshalRows
  cases items.findSome? fun item => (itemJson item).unsupported? with
  | some value => exact iff_of_false nofun (fun h => nomatch h.1)
  | none =>
    rw [Except.ok.injEq, eq_comm]
    exact (and_iff_right rfl).symm

variable {t' : StoredTable}

theorem foldlM_upsertRow_eq_ok : rows.foldlM (upsertRow accepts) t = .ok t' ↔
      (∀ row ∈ rows, accepts row = true) ∧ t' = t.upsertAll rows := by
  induction rows generalizing t with
  | nil =>
    rw [List.foldlM_nil]
    constructor
    · intro hOk
      cases hOk
      exact ⟨List.forall_mem_nil _, rfl⟩
    · rintro ⟨-, rfl⟩
      rfl
  | cons row rows ih =>
    rw [List.foldlM_cons, Fallible.bind_eq_ok, List.forall_mem_cons]
    constructor
    · rintro ⟨mid, hFirst, hRest⟩
      unfold upsertRow at hFirst
      split_ifs at hFirst with hAccepts
      cases hFirst
      rcases ih.mp hRest with ⟨hAll, rfl⟩
      exact ⟨⟨hAccepts, hAll⟩, rfl⟩
    · rintro ⟨⟨hAccepts, hAll⟩, rfl⟩
      exact ⟨t.upsert row, if_pos hAccepts, ih.mpr ⟨hAll, rfl⟩⟩

theorem rowUpsert_eq_ok :
    rowUpsert accepts t s items exportedAt = .ok t' ↔ Storable accepts s items exportedAt ∧
        t' = t.upsertAll (buildUpsertRows s items exportedAt) := by
  unfold rowUpsert Storable
  rw [Fallible.bind_eq_ok]
  constructor
  · rintro ⟨rows, hRows, hFold⟩
    rcases marshalRows_eq_ok.mp hRows with ⟨hTexts, rfl⟩
    rcases foldlM_upsertRow_eq_ok.mp hFold with ⟨hAll, hT⟩
    exact ⟨⟨hTexts, hAll⟩, hT⟩
  · rintro ⟨⟨hTexts, hAll⟩, hT⟩
    exact ⟨_, marshalRows_eq_ok.mpr ⟨hTexts, rfl⟩, foldlM_upsertRow_eq_ok.mpr ⟨hAll, hT⟩⟩

/- The statement fails if two staged rows have one key. -/
theorem bulkUpsert_eq_ok (hReads : ∀ rows, (reads rows).Perm rows) :
    bulkUpsert staging accepts reads t s items exportedAt = .ok t' ↔
      (Storable accepts s items exportedAt ∧ staging = true ∧
        ((buildUpsertRows s items exportedAt).map rowKey).Nodup) ∧
        t' = t.upsertAll (reads (buildUpsertRows s items exportedAt)) := by
  have hKeys : ((reads (buildUpsertRows s items exportedAt)).map rowKey).Nodup ↔
      ((buildUpsertRows s items exportedAt).map rowKey).Nodup :=
    ((hReads _).map rowKey).nodup_iff
  unfold bulkUpsert copyRows Storable
  cases staging with
  | false => exact iff_of_false nofun (fun hAll => nomatch hAll.1.2.1)
  | true => ?_
  rw [if_neg Bool.true_eq_false.mp, Fallible.bind_eq_ok]
  constructor
  · rintro ⟨rows, hRows, hRest⟩
    rcases marshalRows_eq_ok.mp hRows with ⟨hTexts, rfl⟩
    rcases Fallible.bind_eq_ok.mp hRest with ⟨staged, hStaged, hMerge⟩
    split_ifs at hStaged with hAll
    cases hStaged
    rw [Table.insertSelect_eq] at hMerge
    by_cases hNodup : ((reads (buildUpsertRows s items exportedAt)).map rowKey).Nodup
    · rw [if_pos hNodup] at hMerge
      cases hMerge
      exact ⟨⟨⟨hTexts, List.all_eq_true.mp hAll⟩, rfl, hKeys.mp hNodup⟩, rfl⟩
    · rw [if_neg hNodup] at hMerge
      cases hMerge
  · rintro ⟨⟨⟨hTexts, hAll⟩, -, hNodup⟩, rfl⟩
    refine ⟨_, marshalRows_eq_ok.mpr ⟨hTexts, rfl⟩, ?_⟩
    rw [Fallible.bind_eq_ok]
    refine ⟨_, if_pos (List.all_eq_true.mpr hAll), ?_⟩
    rw [Table.insertSelect_eq, if_pos (hKeys.mpr hNodup)]

theorem nodup_rowKeys_iff :
    ((buildUpsertRows s items exportedAt).map rowKey).Nodup ↔ (items.map itemKey).Nodup := by
  refine ⟨fun hNodup => ?_, nodup_rowKeys⟩
  have hKeys : (buildUpsertRows s items exportedAt).map rowKey =
      (items.map itemKey).map fun pair =>
        (⟨s.inventoryNamespace, s.inventoryName, pair.1, pair.2⟩ : RowKey) := by
    unfold buildUpsertRows
    rw [List.map_map, List.map_map]
    rfl
  exact List.Nodup.of_map _ (hKeys ▸ hNodup)

theorem sameOutcome_error {a b : Except UpsertError StoredTable} (hA : ∀ t, a ≠ .ok t)
    (hB : ∀ t, b ≠ .ok t) : SameOutcome a b := by
  cases a with
  | ok t => exact absurd rfl (hA t)
  | error e =>
    cases b with
    | ok t => exact absurd rfl (hB t)
    | error e' => trivial

/- An export upserts in these ways, when the server is in order and the rows can be stored. -/
theorem upsertItems_of_storable (hStorable : Storable accepts s items exportedAt) :
    (upsertItems t s items exportedAt).toOption =
      (if bulkUpsertThreshold ≤ items.length then bulkUpsert true accepts id t s items exportedAt
      else rowUpsert accepts t s items exportedAt).toOption := by
  unfold upsertItems
  split_ifs
  · unfold bulkUpsertItems
    split_ifs with hNodup
    · have hBulk : bulkUpsert true accepts id t s items exportedAt = .ok _ :=
        (bulkUpsert_eq_ok List.Perm.refl).mpr ⟨⟨hStorable, rfl, hNodup⟩, rfl⟩
      rw [hBulk]
      rfl
    · cases hBulk : bulkUpsert true accepts id t s items exportedAt with
      | ok t' => exact absurd ((bulkUpsert_eq_ok List.Perm.refl).mp hBulk).1.2.2 hNodup
      | error e => rfl
  · rw [rowUpsert_eq_ok.mpr ⟨hStorable, rfl⟩]
    rfl

end Ways

/-
  Both ways have one outcome, whatever the order in which the staged rows are read, exactly if a row
  cannot be stored at all, or there can be a staging table and no two items have one target name and
  UID.
-/
theorem bulk_agrees_iff (staging : Bool) (accepts : StoredRow → Bool) (t : StoredTable)
    (s : ExportScope) (items : List Item) (exportedAt : Nat) :
    (∀ reads : List StoredRow → List StoredRow, (∀ rows, (reads rows).Perm rows) → SameOutcome
            (rowUpsert accepts t s items exportedAt)
            (bulkUpsert staging accepts reads t s items exportedAt)) ↔
      ¬ Storable accepts s items exportedAt ∨ staging = true ∧ (items.map itemKey).Nodup := by
  constructor
  · intro hSame
    by_contra hNot
    rw [not_or, not_not] at hNot
    have hRow : rowUpsert accepts t s items exportedAt = .ok _ := rowUpsert_eq_ok.mpr ⟨hNot.1, rfl⟩
    have hOne := hSame id List.Perm.refl
    rw [hRow] at hOne
    cases hBulk : bulkUpsert staging accepts id t s items exportedAt with
    | ok t' =>
      have hNodup := ((bulkUpsert_eq_ok List.Perm.refl).mp hBulk).1.2
      exact hNot.2 ⟨hNodup.1, nodup_rowKeys_iff.mp hNodup.2⟩
    | error e =>
      rw [hBulk] at hOne
      exact hOne
  · rintro hCase reads hReads
    by_cases hStorable : Storable accepts s items exportedAt
    · have hBoth := hCase.resolve_left (not_not.mpr hStorable)
      have hKeys : ((buildUpsertRows s items exportedAt).map rowKey).Nodup :=
        nodup_rowKeys_iff.mpr hBoth.2
      have hPerm := hReads (buildUpsertRows s items exportedAt)
      rw [rowUpsert_eq_ok.mpr ⟨hStorable, rfl⟩,
        (bulkUpsert_eq_ok hReads).mpr ⟨⟨hStorable, hBoth.1, hKeys⟩, rfl⟩]
      intro r
      rw [Table.mem_upsertAll hKeys, Table.mem_upsertAll ((hPerm.map rowKey).nodup_iff.mpr hKeys),
        hPerm.mem_iff, (hPerm.map rowKey).mem_iff]
    · apply sameOutcome_error
      · intro t' hOk
        exact hStorable (rowUpsert_eq_ok.mp hOk).1
      · intro t' hOk
        exact hStorable ((bulkUpsert_eq_ok hReads).mp hOk).1.1

/- One resource under targets of one name in two namespaces. -/
def sharedItems : List Item :=
  [sampleItem "u1", { sampleItem "u1" with targetNamespace := "other" }]

/- Row by row the second item replaces the first one's row; in one statement it is an error. -/
theorem bulk_fails_on_shared_item : ((rowUpsert (fun _ => true) Table.empty ⟨"team", "app", []⟩
        sharedItems 1).map fun t => t.rows.map rowKey) = .ok [⟨"team", "app", "web", "u1"⟩] ∧
    ((bulkUpsert true (fun _ => true) id Table.empty
        ⟨"team", "app", []⟩ sharedItems 1).map fun t =>
          t.rows.map rowKey) = .error .mergeFailed := by
  decide +kernel

end Postgres
end Sink
end Kollect
