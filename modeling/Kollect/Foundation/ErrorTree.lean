import Mathlib.Data.List.Perm.Basic

/-
  Errors that wrap other errors, and what a search of such a tree finds.

  A search visits an error before the errors it wraps and joined errors in their order, and stops at
  the first error that is accepted.

  Key theorems include:
    * `ErrorTree.findSome?_join`
    * `ErrorTree.head?_filterMap_of_perm_iff`
-/

/- An error with a label, one that wraps another, and a list. -/
inductive ErrorTree (ν : Type) where
  | leaf (label : ν)
  | wrap (label : ν) (inner : ErrorTree ν)
  | join (parts : List (ErrorTree ν))

namespace ErrorTree

variable {ν β : Type}

----
-- Search
----

mutual

def findSome? (accept : ν → Option β) : ErrorTree ν → Option β
  | .leaf label => accept label
  | .wrap label inner => (accept label).or (inner.findSome? accept)
  | .join parts => findSomeIn accept parts

def findSomeIn (accept : ν → Option β) : List (ErrorTree ν) → Option β
  | [] => none
  | part :: parts => (part.findSome? accept).or (findSomeIn accept parts)

end

theorem findSome?_join (accept : ν → Option β) (parts : List (ErrorTree ν)) :
    (join parts).findSome? accept = (parts.filterMap fun part => part.findSome? accept).head? := by
  rw [findSome?]
  induction parts with
  | nil => rfl
  | cons part parts ih =>
    rw [findSomeIn, ih]
    cases hPart : part.findSome? accept with
    | none => rw [List.filterMap_cons_none hPart, Option.none_or]
    | some found => rw [List.filterMap_cons_some hPart, List.head?_cons, Option.some_or]

----
-- What Comes First
----

/- What is found first is the same in every order exactly if the same is found everywhere. -/
theorem head?_filterMap_of_perm_iff {α : Type} {f : α → Option β} {xs : List α} :
    (∀ ys : List α, ys.Perm xs → (ys.filterMap f).head? = (xs.filterMap f).head?) ↔
      ∀ a ∈ xs.filterMap f, ∀ b ∈ xs.filterMap f, a = b := by
  constructor
  · intro hFirst a hA b hB
    have hHead : ∀ c ∈ xs.filterMap f, (xs.filterMap f).head? = some c := by
      intro c hC
      rcases List.mem_filterMap.mp hC with ⟨x, hX, hFound⟩
      rcases List.append_of_mem hX with ⟨front, back, rfl⟩
      rw [← hFirst (x :: (front ++ back)) List.perm_middle.symm,
        List.filterMap_cons_some hFound, List.head?_cons]
    exact Option.some.inj ((hHead a hA).symm.trans (hHead b hB))
  · intro hAll ys hPerm
    have hFound := hPerm.filterMap f
    cases hYs : ys.filterMap f with
    | nil =>
      rw [hYs] at hFound
      rw [List.nil_perm.mp hFound]
    | cons c cs =>
      have hC : c ∈ xs.filterMap f := hFound.mem_iff.mp (hYs ▸ List.mem_cons_self)
      cases hXs : xs.filterMap f with
      | nil =>
        rw [hXs] at hC
        cases hC
      | cons d ds => rw [List.head?_cons, List.head?_cons, hAll c hC d (hXs ▸ List.mem_cons_self)]

end ErrorTree
