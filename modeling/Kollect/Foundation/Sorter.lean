import Mathlib.Data.List.Sort
import Mathlib.Data.List.FinRange

/-
  Sorting by a key, where nothing is known of how values with one key are ordered.

  A sorter sees the keys only. It may move values with one key as it likes, but it does the same for
  the same keys, and it leaves a sorted list alone.

  Key theorems include:
    * `Sorter.sortBy_eq_of_perm`
    * `Sorter.map_key_sortBy_of_perm`
-/

structure Sorter (κ : Type) [LinearOrder κ] where
  order : (keys : List κ) → List (Fin keys.length)
  perm : ∀ keys, (order keys).Perm (List.finRange keys.length)
  sorted : ∀ keys, ((order keys).map keys.get).Pairwise (fun a b => a ≤ b)
  fixed : ∀ keys, keys.Pairwise (fun a b => a ≤ b) → order keys = List.finRange keys.length

namespace Sorter

variable {κ α β : Type} [LinearOrder κ]

theorem map_get_cast {n : Nat} (values : List β) (hLength : n = values.length) :
    (List.finRange n).map (fun i => values.get (i.cast hLength)) = values := by
  subst hLength
  exact List.map_get_finRange values

/- The values that stand beside the keys, in sorted order. -/
def arrange (S : Sorter κ) (keys : List κ) (values : List β)
    (hLength : keys.length = values.length) : List β :=
  (S.order keys).map fun i => values.get (i.cast hLength)

def sortBy (S : Sorter κ) (key : α → κ) (values : List α) : List α :=
  S.arrange (values.map key) values (List.length_map _)

section Properties

variable (S : Sorter κ) (key : α → κ)

theorem map_arrange (f : α → β) (keys : List κ) (values : List α)
    (hLength : keys.length = values.length) : (S.arrange keys values hLength).map f =
      S.arrange keys (values.map f) (by rw [List.length_map]; exact hLength) := by
  unfold arrange
  rw [List.map_map]
  exact List.map_congr_left fun i _ => by simp

theorem perm_arrange (keys : List κ) (values : List β) (hLength : keys.length = values.length) :
    (S.arrange keys values hLength).Perm values := by
  have hPerm := (S.perm keys).map fun i => values.get (i.cast hLength)
  rw [map_get_cast] at hPerm
  exact hPerm

theorem perm_sortBy (values : List α) : (S.sortBy key values).Perm values := S.perm_arrange _ _ _

@[simp]
theorem length_sortBy (values : List α) : (S.sortBy key values).length = values.length :=
  (S.perm_sortBy key values).length_eq

variable {values : List α}

@[simp]
theorem mem_sortBy {a : α} : a ∈ S.sortBy key values ↔ a ∈ values :=
  (S.perm_sortBy key values).mem_iff

theorem pairwise_sortBy (values : List α) :
    ((S.sortBy key values).map key).Pairwise (fun a b => a ≤ b) := by
  unfold sortBy
  rw [map_arrange]
  have hSorted := S.sorted (values.map key)
  exact hSorted

variable {values' : List α}

theorem arrange_congr {keys keys' : List κ} {reads reads' : List β}
    (hKeys : keys = keys') (hReads : reads = reads') (hLength : keys.length = reads.length)
    (hLength' : keys'.length = reads'.length) :
    S.arrange keys reads hLength = S.arrange keys' reads' hLength' := by
  subst hKeys hReads
  rfl

/- What is read off the sorted values depends on the keys and on what is read off the values. -/
theorem map_sortBy_congr (f : α → β) (hKeys : values.map key = values'.map key)
    (hRead : values.map f = values'.map f) :
    (S.sortBy key values).map f = (S.sortBy key values').map f := by
  unfold sortBy
  rw [map_arrange, map_arrange]
  exact S.arrange_congr hKeys hRead _ _

/- Values are sorted by what is read off them as what is read off them is. -/
theorem map_sortBy (f : α → β) (key : β → κ) (values : List α) :
    (S.sortBy (fun a => key (f a)) values).map f = S.sortBy key (values.map f) := by
  unfold sortBy
  rw [map_arrange]
  exact S.arrange_congr (List.map_map ..).symm rfl _ _

/- Keys in order are one list for each way to list them. -/
theorem map_key_sortBy_of_perm (hPerm : values.Perm values') :
    (S.sortBy key values).map key = (S.sortBy key values').map key := by
  have hSame : ((S.sortBy key values).map key).Perm ((S.sortBy key values').map key) :=
    (((S.perm_sortBy key values).trans hPerm).trans (S.perm_sortBy key values').symm).map key
  exact hSame.eq_of_pairwise' (S.pairwise_sortBy key values) (S.pairwise_sortBy key values')

theorem sortBy_eq_of_perm_of_inj (hPerm : values.Perm values')
    (hInj : ∀ a ∈ values, ∀ b ∈ values, key a = key b → a = b) :
    S.sortBy key values = S.sortBy key values' := by
  have hSame : (S.sortBy key values).Perm (S.sortBy key values') :=
    ((S.perm_sortBy key values).trans hPerm).trans (S.perm_sortBy key values').symm
  refine hSame.eq_of_pairwise ?_ (List.pairwise_map.mp (S.pairwise_sortBy key values))
    (List.pairwise_map.mp (S.pairwise_sortBy key values'))
  intro a b hA hB hLe hGe
  rw [mem_sortBy] at hA hB
  exact hInj a hA b (hPerm.mem_iff.mpr hB) (le_antisymm hLe hGe)

theorem sortBy_eq_of_perm (hPerm : values.Perm values') (hNodup : (values.map key).Nodup) :
    S.sortBy key values = S.sortBy key values' :=
  S.sortBy_eq_of_perm_of_inj key hPerm fun _ hA _ hB => List.inj_on_of_nodup_map hNodup hA hB

theorem sortBy_of_pairwise (hSorted : (values.map key).Pairwise (fun a b => a ≤ b)) :
    S.sortBy key values = values := by
  unfold sortBy arrange
  rw [S.fixed _ hSorted, map_get_cast]

end Properties

----
-- A Stable Sorter
----

/- Values with one key keep their order. -/
def stable : Sorter κ where
  order keys := (List.finRange keys.length).insertionSort fun i j => keys.get i ≤ keys.get j
  perm keys := List.perm_insertionSort _ _
  sorted keys := List.pairwise_map.mpr (List.pairwise_insertionSort _ _)
  fixed keys hSorted := by
    refine List.Pairwise.insertionSort_eq (List.pairwise_map.mp ?_)
    rw [List.map_get_finRange]
    exact hSorted

theorem sortBy_stable (key : α → κ) (values : List α) :
    stable.sortBy key values = values.insertionSort fun a b => key a ≤ key b := by
  have hMap := List.map_insertionSort (fun i j => (values.map key).get i ≤ (values.map key).get j)
    (fun a b => key a ≤ key b) (fun i => values.get (i.cast (List.length_map _)))
    (List.finRange (values.map key).length) (by simp)
  rw [map_get_cast] at hMap
  exact hMap

end Sorter
