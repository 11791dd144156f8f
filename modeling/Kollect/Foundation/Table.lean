import Mathlib.Data.List.Nodup
import Mathlib.Data.List.Perm.Basic

/-
  Tables with a unique key, as a database keeps them.

  A table is a list of rows no two of which have one key; the order of the rows carries no meaning,
  so what an operation does is said by the rows that are there afterwards.

  What a table holds after an operation is given by:
    * `Table.mem_upsert`
    * `Table.mem_upsertAll`
    * `Table.mem_deleteWhere`
    * `Table.mem_replaceOne`
    * `Table.replaceOne_isSome`
    * `Table.insertSelect_eq`
-/

/- Rows of a type, told apart by their keys. -/
structure Table (R K : Type) (key : R → K) where
  rows : List R
  unique : (rows.map key).Nodup

namespace Table

variable {R K : Type} {key : R → K}

----
-- Operations
----

def empty : Table R K key := ⟨[], List.nodup_nil⟩

def deleteWhere (t : Table R K key) (p : R → Bool) : Table R K key where
  rows := t.rows.filter (fun r => !p r)
  unique := t.unique.sublist (List.filter_sublist.map key)

variable {r : R} {t : Table R K key}

@[simp] theorem mem_deleteWhere {p : R → Bool} :
    r ∈ (t.deleteWhere p).rows ↔ r ∈ t.rows ∧ p r = false := by
  simp [deleteWhere]

theorem rows_nodup (t : Table R K key) : t.rows.Nodup := List.Nodup.of_map key t.unique

theorem eq_of_key_eq (t : Table R K key) {s : R} (hR : r ∈ t.rows) (hS : s ∈ t.rows)
    (hKey : key r = key s) : r = s :=
  List.inj_on_of_nodup_map t.unique hR hS hKey

variable [DecidableEq K]

def dropKey (t : Table R K key) (k : K) : Table R K key :=
  t.deleteWhere (fun r => decide (key r = k))

theorem mem_dropKey {k : K} : r ∈ (t.dropKey k).rows ↔ r ∈ t.rows ∧ key r ≠ k := by simp [dropKey]

def add (t : Table R K key) (row : R) (hFree : ∀ r ∈ t.rows, key r ≠ key row) : Table R K key where
  rows := row :: t.rows
  unique := by
    rw [List.map_cons, List.nodup_cons]
    refine ⟨fun hMem => ?_, t.unique⟩
    rcases List.mem_map.mp hMem with ⟨r, hR, hKey⟩
    exact hFree r hR hKey

/-
  `INSERT … ON CONFLICT (key) DO UPDATE` that sets every other column: the row takes the place of
  the one with its key.
-/
def upsert (t : Table R K key) (row : R) : Table R K key :=
  (t.dropKey (key row)).add row (fun _ hR => (mem_dropKey.mp hR).2)

def upsertAll (t : Table R K key) (rows : List R) : Table R K key := rows.foldl upsert t

/- `INSERT`; a row with the key is an error. -/
def insert (t : Table R K key) (row : R) : Option (Table R K key) :=
  if hFree : ∀ r ∈ t.rows, key r ≠ key row then some (t.add row hFree)
  else none

/-
  Replace the first row that matches, or insert the row when none does. A row left in the table with
  the same key is an error.
-/
def replaceOne (t : Table R K key) (isMatch : R → Bool) (row : R) : Option (Table R K key) :=
  match t.rows.find? isMatch with
  | some old => (t.dropKey (key old)).insert row
  | none => t.insert row

----
-- What A Table Holds
----

variable {row : R}

@[simp] theorem mem_upsert : r ∈ (t.upsert row).rows ↔ r = row ∨ r ∈ t.rows ∧ key r ≠ key row := by
  simp [upsert, add, mem_dropKey]

theorem mem_upsertAll {rows : List R} (hRows : (rows.map key).Nodup) :
    r ∈ (t.upsertAll rows).rows ↔ r ∈ rows ∨ r ∈ t.rows ∧ key r ∉ rows.map key := by
  induction rows generalizing t with
  | nil => simp [upsertAll]
  | cons row rows ih =>
    rw [List.map_cons, List.nodup_cons] at hRows
    have hStep : t.upsertAll (row :: rows) = (t.upsert row).upsertAll rows := rfl
    rw [hStep, ih hRows.2, mem_upsert]
    constructor
    · rintro (hNew | ⟨rfl | ⟨hOld, hNe⟩, hOut⟩)
      · exact .inl (List.mem_cons_of_mem row hNew)
      · exact .inl List.mem_cons_self
      · exact .inr ⟨hOld, by simp [hNe, hOut]⟩
    · rintro (hNew | ⟨hOld, hOut⟩)
      · rcases List.mem_cons.mp hNew with rfl | hNew
        · exact .inr ⟨.inl rfl, hRows.1⟩
        · exact .inl hNew
      · rw [List.map_cons, List.mem_cons, not_or] at hOut
        exact .inr ⟨.inr ⟨hOld, hOut.1⟩, hOut.2⟩

theorem mem_insert {t' : Table R K key} (hInsert : t.insert row = some t') :
    r ∈ t'.rows ↔ r = row ∨ r ∈ t.rows := by
  unfold insert at hInsert
  split_ifs at hInsert with hFree
  rw [← Option.some.inj hInsert]
  exact List.mem_cons

theorem insert_isSome : (t.insert row).isSome ↔ ∀ r ∈ t.rows, key r ≠ key row := by
  unfold insert
  split_ifs with hFree
  · exact ⟨fun _ => hFree, fun _ => rfl⟩
  · exact ⟨fun hSome => absurd hSome (by simp), fun h => absurd h hFree⟩

section Replace

variable {t : Table R K key} {isMatch : R → Bool} {row : R}
variable (hMatch : ∀ r, isMatch r = true → key r = key row)

include hMatch

theorem replaceOne_eq : t.replaceOne isMatch row =
      if t.rows.any isMatch then (t.dropKey (key row)).insert row
      else t.insert row := by
  unfold replaceOne
  cases hFind : t.rows.find? isMatch with
  | none =>
    have hNone : t.rows.any isMatch = false := by
      rw [List.any_eq_false]
      exact List.find?_eq_none.mp hFind
    rw [hNone]
    rfl
  | some old =>
    have hOld := List.find?_some hFind
    have hAny : t.rows.any isMatch = true :=
      List.any_eq_true.mpr ⟨old, List.mem_of_find?_eq_some hFind, hOld⟩
    simp only [hAny, if_true, hMatch old hOld]

theorem replaceOne_isSome :
    (t.replaceOne isMatch row).isSome ↔ ∀ r ∈ t.rows, key r = key row → isMatch r = true := by
  rw [replaceOne_eq hMatch]
  split_ifs with hAny
  · rcases List.any_eq_true.mp hAny with ⟨old, hOld, hIs⟩
    refine ⟨fun _ r hR hKey => ?_, fun _ => ?_⟩
    · have hSame : r = old := t.eq_of_key_eq hR hOld (hKey.trans (hMatch old hIs).symm)
      rw [hSame]
      exact hIs
    · exact insert_isSome.mpr fun r hR => (mem_dropKey.mp hR).2
  · rw [insert_isSome]
    refine ⟨fun hFree r hR hKey => absurd hKey (hFree r hR), fun hAll r hR hKey => hAny ?_⟩
    exact List.any_eq_true.mpr ⟨r, hR, hAll r hR hKey⟩

theorem mem_replaceOne {t' : Table R K key}
    (hReplace : t.replaceOne isMatch row = some t') {r : R} :
    r ∈ t'.rows ↔ r = row ∨ r ∈ t.rows ∧ key r ≠ key row := by
  rw [replaceOne_eq hMatch] at hReplace
  split_ifs at hReplace with hAny
  · rw [mem_insert hReplace, mem_dropKey]
  · rw [mem_insert hReplace]
    have hFree := insert_isSome.mp (Option.isSome_of_mem hReplace)
    constructor
    · rintro (hRow | hR)
      · exact .inl hRow
      · exact .inr ⟨hR, hFree r hR⟩
    · rintro (hRow | hR)
      · exact .inl hRow
      · exact .inr hR.1

end Replace

----
-- One Statement For Many Rows
----

/- A key that the statement has touched is an error. -/
def upsertOnce (state : Table R K key × List K) (row : R) : Option (Table R K key × List K) :=
  if key row ∈ state.2 then none
  else some (state.1.upsert row, key row :: state.2)

/- `INSERT … SELECT … ON CONFLICT (key) DO UPDATE`. -/
def insertSelect (t : Table R K key) (rows : List R) : Option (Table R K key) :=
  (rows.foldlM upsertOnce (t, [])).map Prod.fst

theorem foldlM_upsertOnce (rows : List R) (t : Table R K key) (touched : List K) :
    (rows.foldlM upsertOnce (t, touched)).map Prod.fst =
      if (rows.map key).Nodup ∧ ∀ row ∈ rows, key row ∉ touched
      then some (t.upsertAll rows) else none := by
  induction rows generalizing t touched with
  | nil => simp [upsertAll]
  | cons row rows ih =>
    rw [List.foldlM_cons]
    unfold upsertOnce
    by_cases hTouched : key row ∈ touched
    · rw [if_pos hTouched, if_neg]
      · rfl
      · rintro ⟨-, hFresh⟩
        exact hFresh row List.mem_cons_self hTouched
    · rw [if_neg hTouched]
      refine (ih (t.upsert row) (key row :: touched)).trans ?_
      have hIff : ((rows.map key).Nodup ∧ ∀ r ∈ rows, key r ∉ key row :: touched) ↔
          ((row :: rows).map key).Nodup ∧ ∀ r ∈ row :: rows, key r ∉ touched := by
        rw [List.map_cons, List.nodup_cons, List.mem_map, List.forall_mem_cons]
        simp only [List.mem_cons, not_or]
        constructor
        · rintro ⟨hNodup, hFresh⟩
          refine ⟨⟨?_, hNodup⟩, hTouched, fun r hR => (hFresh r hR).2⟩
          rintro ⟨r, hR, hKey⟩
          exact (hFresh r hR).1 hKey
        · rintro ⟨⟨hNew, hNodup⟩, -, hFresh⟩
          exact ⟨hNodup, fun r hR => ⟨fun hKey => hNew ⟨r, hR, hKey⟩, hFresh r hR⟩⟩
      simp only [hIff]
      rfl

theorem insertSelect_eq (t : Table R K key) (rows : List R) : t.insertSelect rows =
      if (rows.map key).Nodup then some (t.upsertAll rows)
      else none := by
  unfold insertSelect
  rw [foldlM_upsertOnce]
  simp only [List.not_mem_nil, not_false_eq_true, implies_true, and_true]

end Table
