import Kollect.Collect.Store
import Kollect.Foundation.LastWins

/-
  Merging rows of several targets (`aggregate/dedupe.go`).

  Rows of one resource, told by its namespace and UID, are one row in the merged list: the last one,
  at the place of the first.

  Key theorems include:
    * `mergeRows_byResourceUID`
-/

namespace Kollect
namespace Aggregate

open Collect

----
-- Merging
----

structure ResourceUID where
  namespace_ : Text
  uid : Text
deriving DecidableEq

def resourceKeyFromItem (item : Item) : ResourceUID := ⟨item.namespace_, item.uid⟩

inductive DedupeMode where
  | keepAll
  | byResourceUID
deriving DecidableEq

def dedupeModeFromSpec (dedupe : Text) : DedupeMode :=
  if dedupe = "byResourceUID" then .byResourceUID else .keepAll

/- Where each resource stands in the list. -/
structure MergeState where
  seen : GoMap ResourceUID Nat
  out : List Item

def mergeRow (s : MergeState) (item : Item) : MergeState :=
  let key := resourceKeyFromItem item
  match s.seen.lookup key with
  | some index => { s with out := s.out.set index item }
  | none => ⟨s.seen.insert key s.out.length, s.out ++ [item]⟩

def mergeRows (items : List Item) (mode : DedupeMode) : List Item :=
  if items = [] ∨ mode = .keepAll then items
  else (items.foldl mergeRow ⟨∅, []⟩).out

----
-- The Last Row Wins
----

/- The index has the place of every resource of the list. -/
structure MergeState.Ok (s : MergeState) : Prop where
  nodup : (s.out.map resourceKeyFromItem).Nodup
  found :
    ∀ key index, s.seen.lookup key = some index → (s.out.map resourceKeyFromItem)[index]? = some key
  all : ∀ key ∈ s.out.map resourceKeyFromItem, (s.seen.lookup key).isSome = true

/- The place of a resource is the only one with its key. -/
theorem set_eq_replace {out : List Item} {item : Item} {index : Nat}
    (hNodup : (out.map resourceKeyFromItem).Nodup)
    (hIndex : (out.map resourceKeyFromItem)[index]? = some (resourceKeyFromItem item)) :
    out.set index item = out.map fun row =>
        if resourceKeyFromItem row = resourceKeyFromItem item
          then item else row := by
  have hLt : index < out.length := by
    have hSome := (List.getElem?_eq_some_iff.mp hIndex).1
    rwa [List.length_map] at hSome
  apply List.ext_getElem?
  intro i
  rw [List.getElem?_set, List.getElem?_map]
  by_cases hI : index = i
  · rw [if_pos hI, ← hI, if_pos hLt]
    rw [List.getElem?_map] at hIndex
    rcases Option.map_eq_some_iff.mp hIndex with ⟨row, hRow, hKey⟩
    rw [hRow, Option.map_some, if_pos hKey]
  · rw [if_neg hI]
    cases hRow : out[i]? with
    | none => rfl
    | some row =>
      have hOther : resourceKeyFromItem row ≠ resourceKeyFromItem item := by
        intro hKey
        have hI' : (out.map resourceKeyFromItem)[i]? = some (resourceKeyFromItem item) := by
          rw [List.getElem?_map, hRow, Option.map_some, hKey]
        exact hI ((List.getElem?_inj (List.getElem?_eq_some_iff.mp hIndex).1 hNodup).mp
          (hIndex.trans hI'.symm))
      rw [Option.map_some, if_neg hOther]

theorem mergeRow_spec {s : MergeState} (hOk : s.Ok) (item : Item) :
    (mergeRow s item).Ok ∧ (mergeRow s item).out = LastWins.put resourceKeyFromItem s.out item := by
  cases hSeen : s.seen.lookup (resourceKeyFromItem item) with
  | some index =>
    have hIndex := hOk.found _ index hSeen
    have hMem : resourceKeyFromItem item ∈ s.out.map resourceKeyFromItem :=
      List.mem_of_getElem? hIndex
    have hOut : s.out.set index item = LastWins.put resourceKeyFromItem s.out item := by
      rw [set_eq_replace hOk.nodup hIndex, LastWins.put, if_pos hMem]
    have hKeys : (s.out.set index item).map
        resourceKeyFromItem = s.out.map resourceKeyFromItem := by
      rw [hOut, LastWins.map_key_put_of_mem hMem]
    simp only [mergeRow, hSeen]
    refine ⟨⟨?_, ?_, ?_⟩, hOut⟩
    · rw [hKeys]
      exact hOk.nodup
    · rw [hKeys]
      exact hOk.found
    · rw [hKeys]
      exact hOk.all
  | none =>
    have hNew : resourceKeyFromItem item ∉ s.out.map resourceKeyFromItem := by
      intro hMem
      have hSome := hOk.all _ hMem
      rw [hSeen] at hSome
      cases hSome
    have hOut := LastWins.put_of_not_mem hNew
    simp only [mergeRow, hSeen]
    rw [← hOut]
    refine ⟨⟨LastWins.nodup_put hOk.nodup item, ?_, ?_⟩, rfl⟩
    · intro key index hLookup
      rw [GoMap.lookup_insert_ite] at hLookup
      rw [hOut, List.map_append]
      split_ifs at hLookup with hKey
      · rw [← Option.some.inj hLookup, hKey, List.getElem?_append_right (by rw [List.length_map]),
          List.length_map, Nat.sub_self]
        rfl
      · have hFound := hOk.found key index hLookup
        rw [List.getElem?_append_left (List.getElem?_eq_some_iff.mp hFound).1]
        exact hFound
    · intro key hKey
      rw [hOut, List.map_append, List.mem_append, List.map_singleton, List.mem_singleton] at hKey
      rw [GoMap.lookup_insert_ite]
      split_ifs with hSame
      · rfl
      · exact hOk.all key (hKey.resolve_right hSame)

/- The indexed loop keeps the last row of each resource. -/
theorem mergeRows_byResourceUID (items : List Item) :
    mergeRows items .byResourceUID = LastWins.merge resourceKeyFromItem items := by
  have hLoop : ∀ s : MergeState, s.Ok →
      (items.foldl mergeRow s).out = items.foldl (LastWins.put resourceKeyFromItem) s.out := by
    induction items with
    | nil => exact fun s _ => rfl
    | cons item items ih =>
      intro s hOk
      rcases mergeRow_spec hOk item with ⟨hNext, hOut⟩
      rw [List.foldl_cons, List.foldl_cons, ih _ hNext, hOut]
  have hStart : (⟨∅, []⟩ : MergeState).Ok :=
    ⟨List.nodup_nil, fun _ _ hLookup => (by cases hLookup), List.forall_mem_nil _⟩
  by_cases hItems : items = []
  · rw [hItems]
    rfl
  · have hBoth : ¬ (items = [] ∨ DedupeMode.byResourceUID = .keepAll) := not_or.mpr ⟨hItems, nofun⟩
    unfold mergeRows
    rw [if_neg hBoth]
    exact hLoop _ hStart

theorem mergeRows_keepAll (items : List Item) : mergeRows items .keepAll = items :=
  if_pos (.inr rfl)

/- Merging makes no new rows. -/
theorem mem_of_mem_mergeRows {items : List Item} {mode : DedupeMode} {item : Item}
    (hItem : item ∈ mergeRows items mode) : item ∈ items := by
  cases mode with
  | keepAll => rwa [mergeRows_keepAll] at hItem
  | byResourceUID =>
    rw [mergeRows_byResourceUID, (LastWins.perm_merge_lasting items).mem_iff] at hItem
    exact (LastWins.sublist_lasting items).subset hItem

end Aggregate
end Kollect
