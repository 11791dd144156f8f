import Mathlib.Data.List.Perm.Basic
import Mathlib.Data.List.Nodup
import Mathlib.Data.List.Induction
import Mathlib.Data.List.Forall2
import Mathlib.Logic.Function.Basic

/-
  Lists with one entry for each key, where a later entry takes the place of an earlier one.

  `merge` is the list in the order of the first occurrences, `lasting` the same entries where they
  stand last. Merging lists one after another depends on the entries of each list only, not on their
  order, if no key occurs twice in one list.

  Key theorems include:
    * `LastWins.perm_lasting_of_perm`
    * `LastWins.perm_map_lasting_flatten`
-/

namespace LastWins

variable {α κ τ : Type} [DecidableEq κ] (key : α → κ)

/- The entry takes the place of the one with its key. -/
def put (out : List α) (x : α) : List α :=
  if key x ∈ out.map key then out.map fun y => if key y = key x then x else y
  else out ++ [x]

def merge (xs : List α) : List α := xs.foldl (put key) []

/- The entries that no later entry replaces. -/
def lasting : List α → List α
  | [] => []
  | x :: xs => if key x ∈ xs.map key then lasting xs else x :: lasting xs

variable {key}

----
-- The Lasting Entries
----

theorem keys_lasting (xs : List α) (k : κ) : k ∈ (lasting key xs).map key ↔ k ∈ xs.map key := by
  induction xs with
  | nil => exact Iff.rfl
  | cons x xs ih =>
    unfold lasting
    split_ifs with hMem
    · rw [ih, List.map_cons, List.mem_cons]
      constructor
      · exact Or.inr
      · rintro (rfl | hK)
        · exact hMem
        · exact hK
    · rw [List.map_cons, List.map_cons, List.mem_cons, List.mem_cons, ih]

theorem sublist_lasting (xs : List α) : (lasting key xs).Sublist xs := by
  induction xs with
  | nil => exact List.Sublist.refl _
  | cons x xs ih =>
    unfold lasting
    split_ifs
    · exact ih.cons x
    · exact ih.cons_cons x

theorem nodup_lasting (xs : List α) : ((lasting key xs).map key).Nodup := by
  induction xs with
  | nil => exact List.nodup_nil
  | cons x xs ih =>
    unfold lasting
    split_ifs with hMem
    · exact ih
    · rw [List.map_cons, List.nodup_cons, keys_lasting]
      exact ⟨hMem, ih⟩

variable {xs : List α}

theorem lasting_of_nodup (hNodup : (xs.map key).Nodup) : lasting key xs = xs := by
  induction xs with
  | nil => rfl
  | cons x xs ih =>
    rw [List.map_cons, List.nodup_cons] at hNodup
    rw [lasting, if_neg hNodup.1, ih hNodup.2]

theorem lasting_append (xs ys : List α) : lasting key (xs ++ ys) =
      (lasting key xs).filter (fun x => key x ∉ ys.map key) ++ lasting key ys := by
  induction xs with
  | nil => rfl
  | cons x xs ih =>
    have hBoth : key x ∈ (xs ++ ys).map key ↔ key x ∈ xs.map key ∨ key x ∈ ys.map key := by
      rw [List.map_append, List.mem_append]
    rw [List.cons_append, lasting, lasting, ih]
    by_cases hOwn : key x ∈ xs.map key
    · rw [if_pos (hBoth.mpr (.inl hOwn)), if_pos hOwn]
    · rw [if_neg hOwn]
      by_cases hLater : key x ∈ ys.map key
      · rw [if_pos (hBoth.mpr (.inr hLater)), List.filter_cons_of_neg (by simpa using hLater)]
      · rw [if_neg (mt hBoth.mp (not_or.mpr ⟨hOwn, hLater⟩)),
          List.filter_cons_of_pos (by simpa using hLater), List.cons_append]

variable {ys : List α}

theorem exists_lasting_append {k : κ} (hKey : k ∈ ys.map key) :
    ∃ y ∈ ys, key y = k ∧ y ∈ lasting key (xs ++ ys) := by
  rcases List.mem_map.mp ((keys_lasting ys k).mpr hKey) with ⟨y, hY, hYKey⟩
  refine ⟨y, (sublist_lasting ys).subset hY, hYKey, ?_⟩
  rw [lasting_append]
  exact List.mem_append_right _ hY

variable {x : α}

theorem mem_lasting_of_inj (hInj : ∀ x ∈ xs, ∀ y ∈ xs, key x = key y → x = y) :
    x ∈ lasting key xs ↔ x ∈ xs := by
  refine ⟨fun hX => (sublist_lasting xs).subset hX, ?_⟩
  intro hX
  rcases List.mem_map.mp ((keys_lasting xs (key x)).mpr (List.mem_map_of_mem hX)) with ⟨y, hY, hKey⟩
  rwa [← hInj y ((sublist_lasting xs).subset hY) x hX hKey]

theorem perm_lasting_of_perm (hPerm : xs.Perm ys)
    (hInj : ∀ x ∈ xs, ∀ y ∈ xs, key x = key y → x = y) :
    (lasting key xs).Perm (lasting key ys) := by
  have hInj' : ∀ x ∈ ys, ∀ y ∈ ys, key x = key y → x = y :=
    fun x hX y hY => hInj x (hPerm.mem_iff.mpr hX) y (hPerm.mem_iff.mpr hY)
  rw [List.perm_ext_iff_of_nodup (nodup_lasting xs).of_map (nodup_lasting ys).of_map]
  intro x
  rw [mem_lasting_of_inj hInj, mem_lasting_of_inj hInj', hPerm.mem_iff]

----
-- Merging
----

variable {out : List α}

theorem map_key_put_of_mem (hMem : key x ∈ out.map key) :
    (put key out x).map key = out.map key := by
  rw [put, if_pos hMem, List.map_map]
  refine List.map_congr_left fun y _ => ?_
  by_cases hKey : key y = key x
  · rw [Function.comp_apply, if_pos hKey, hKey]
  · rw [Function.comp_apply, if_neg hKey]

theorem put_of_not_mem (hNew : key x ∉ out.map key) : put key out x = out ++ [x] := if_neg hNew

theorem nodup_put (hNodup : (out.map key).Nodup) (x : α) : ((put key out x).map key).Nodup := by
  by_cases hMem : key x ∈ out.map key
  · rw [map_key_put_of_mem hMem]
    exact hNodup
  · rw [put_of_not_mem hMem, List.map_append, List.map_singleton, ← List.concat_eq_append]
    exact hNodup.concat hMem

theorem merge_append_singleton (xs : List α) (x : α) :
    merge key (xs ++ [x]) = put key (merge key xs) x :=
  List.foldl_append

theorem nodup_merge (xs : List α) : ((merge key xs).map key).Nodup := by
  induction xs using List.reverseRecOn with
  | nil => exact List.nodup_nil
  | append_singleton xs x ih =>
    rw [merge_append_singleton]
    exact nodup_put ih x

theorem replace_of_not_mem (hNew : key x ∉ out.map key) :
    (out.map fun y => if key y = key x then x else y) = out ∧
      out.filter (fun y => key y ≠ key x) = out := by
  have hOther : ∀ y ∈ out, key y ≠ key x := fun y hY hKey => hNew (hKey ▸ List.mem_map_of_mem hY)
  constructor
  · refine (List.map_congr_left fun y hY => ?_).trans (List.map_id out)
    exact if_neg (hOther y hY)
  · rw [List.filter_eq_self]
    intro y hY
    exact decide_eq_true (hOther y hY)

theorem perm_replace (hNodup : (out.map key).Nodup) (hMem : key x ∈ out.map key) :
    (out.map fun y => if key y = key x then x else y).Perm
      (out.filter (fun y => key y ≠ key x) ++ [x]) := by
  induction out with
  | nil => cases hMem
  | cons y out ih =>
    rw [List.map_cons, List.nodup_cons] at hNodup
    by_cases hKey : key y = key x
    · rcases replace_of_not_mem (hKey ▸ hNodup.1) with ⟨hMap, hFilter⟩
      rw [List.map_cons, if_pos hKey, hMap, List.filter_cons_of_neg (by simpa using hKey), hFilter]
      exact (List.perm_append_singleton x out).symm
    · have hRest : key x ∈ out.map key := (List.mem_cons.mp hMem).resolve_left (Ne.symm hKey)
      rw [List.map_cons, if_neg hKey, List.filter_cons_of_pos (by simpa using hKey)]
      exact (ih hNodup.2 hRest).cons y

theorem perm_put (hNodup : (out.map key).Nodup) (x : α) :
    (put key out x).Perm (out.filter (fun y => key y ≠ key x) ++ [x]) := by
  by_cases hMem : key x ∈ out.map key
  · rw [put, if_pos hMem]
    exact perm_replace hNodup hMem
  · rw [put_of_not_mem hMem, (replace_of_not_mem hMem).2]

theorem perm_merge_lasting (xs : List α) : (merge key xs).Perm (lasting key xs) := by
  induction xs using List.reverseRecOn with
  | nil => exact List.Perm.refl _
  | append_singleton xs x ih =>
    have hOther : (fun y => decide (key y ∉ [x].map key)) = fun y => decide (key y ≠ key x) := by
      funext y
      simp
    rw [merge_append_singleton, lasting_append, hOther]
    exact (perm_put (nodup_merge xs) x).trans ((ih.filter _).append_right [x])

theorem merge_of_nodup (hNodup : (xs.map key).Nodup) : merge key xs = xs := by
  induction xs using List.reverseRecOn with
  | nil => rfl
  | append_singleton xs x ih =>
    rw [List.map_append, List.map_singleton, ← List.concat_eq_append, List.nodup_concat] at hNodup
    rw [merge_append_singleton, ih hNodup.2, put_of_not_mem hNodup.1]

----
-- Keys In The Order Of Their First Occurrence
----

theorem eraseDups_append_singleton (ks : List κ) (k : κ) :
    (ks ++ [k]).eraseDups = if k ∈ ks then ks.eraseDups else ks.eraseDups ++ [k] := by
  rw [List.eraseDups_append]
  split_ifs with hMem
  · have hNone : [k].removeAll ks = [] := by simp [List.removeAll, hMem]
    rw [hNone]
    exact List.append_nil _
  · have hOne : [k].removeAll ks = [k] := by simp [List.removeAll, hMem]
    rw [hOne]
    rfl

theorem eraseDups_eraseDups (ks : List κ) : ks.eraseDups.eraseDups = ks.eraseDups := by
  induction ks using List.reverseRecOn with
  | nil => rfl
  | append_singleton ks k ih =>
    rw [eraseDups_append_singleton]
    split_ifs with hMem
    · exact ih
    · rw [eraseDups_append_singleton, if_neg (mt List.mem_eraseDups.mp hMem), ih]

theorem eraseDups_append_eraseDups (ks ls : List κ) :
    (ks.eraseDups ++ ls.eraseDups).eraseDups = (ks ++ ls).eraseDups := by
  induction ls using List.reverseRecOn with
  | nil =>
    rw [List.append_nil]
    exact (congrArg List.eraseDups (List.append_nil _)).trans (eraseDups_eraseDups ks)
  | append_singleton ls l ih =>
    have hBoth : l ∈ ks.eraseDups ++ ls.eraseDups ↔ l ∈ ks ++ ls := by
      rw [List.mem_append, List.mem_append, List.mem_eraseDups, List.mem_eraseDups]
    rw [← List.append_assoc, eraseDups_append_singleton, eraseDups_append_singleton]
    by_cases hOwn : l ∈ ls
    · rw [if_pos hOwn, if_pos (List.mem_append_right ks hOwn), ih]
    · rw [if_neg hOwn, ← List.append_assoc, eraseDups_append_singleton, ih]
      simp only [hBoth]

theorem keys_merge (xs : List α) : (merge key xs).map key = (xs.map key).eraseDups := by
  induction xs using List.reverseRecOn with
  | nil => rfl
  | append_singleton xs x ih =>
    have hMem : key x ∈ (merge key xs).map key ↔ key x ∈ xs.map key := by
      rw [ih, List.mem_eraseDups]
    rw [merge_append_singleton, List.map_append, List.map_singleton, eraseDups_append_singleton]
    split_ifs with hKey
    · rw [map_key_put_of_mem (hMem.mpr hKey), ih]
    · rw [put_of_not_mem (mt hMem.mp hKey), List.map_append, List.map_singleton, ih]

theorem mem_merge_iff :
    x ∈ merge key xs ↔ ∃ front back, xs = front ++ x :: back ∧ key x ∉ back.map key := by
  rw [(perm_merge_lasting xs).mem_iff]
  constructor
  · intro hX
    induction xs with
    | nil => cases hX
    | cons y ys ih =>
      have hLater : x ∈ lasting key ys → ∃ front back,
          y :: ys = front ++ x :: back ∧ key x ∉ back.map key := by
        intro hYs
        rcases ih hYs with ⟨front, back, rfl, hBack⟩
        exact ⟨y :: front, back, rfl, hBack⟩
      unfold lasting at hX
      split_ifs at hX with hMem
      · exact hLater hX
      · rcases List.mem_cons.mp hX with rfl | hYs
        · exact ⟨[], ys, rfl, hMem⟩
        · exact hLater hYs
  · rintro ⟨front, back, rfl, hBack⟩
    have hOwn : lasting key (x :: back) = x :: lasting key back := by rw [lasting, if_neg hBack]
    rw [lasting_append, hOwn]
    exact List.mem_append_right _ List.mem_cons_self

/- Entries with distinct keys are told from the keys in order. -/
omit [DecidableEq κ] in
theorem eq_of_keys (hKeys : xs.map key = ys.map key) (hNodup : (xs.map key).Nodup)
    (hMem : ∀ x ∈ xs, x ∈ ys) : xs = ys := by
  induction xs generalizing ys with
  | nil => exact (List.map_eq_nil_iff.mp hKeys.symm).symm
  | cons x xs ih =>
    cases ys with
    | nil => cases hKeys
    | cons y ys =>
      have hNodup' := hKeys ▸ hNodup
      rw [List.map_cons, List.nodup_cons] at hNodup
      rw [List.map_cons, List.map_cons, List.cons.injEq] at hKeys
      have hHead : x = y :=
        List.inj_on_of_nodup_map hNodup' (hMem x List.mem_cons_self) List.mem_cons_self hKeys.1
      rw [hHead, ih hKeys.2 hNodup.2]
      intro z hZ
      have hOther : z ≠ y := by
        rintro rfl
        exact hNodup.1 (hKeys.1 ▸ List.mem_map_of_mem hZ)
      exact (List.mem_cons.mp (hMem z (List.mem_cons_of_mem x hZ))).resolve_left hOther

/- Merging twice, part by part and then all, is merging once. -/
theorem merge_merge_append (xs ys : List α) :
    merge key (merge key xs ++ merge key ys) = merge key (xs ++ ys) := by
  refine eq_of_keys ?_ (nodup_merge _) fun x hX => ?_
  · rw [keys_merge, keys_merge, List.map_append, List.map_append,
      keys_merge, keys_merge, eraseDups_append_eraseDups]
  · rw [(perm_merge_lasting _).mem_iff, lasting_append, lasting_of_nodup (nodup_merge xs),
      lasting_of_nodup (nodup_merge ys)] at hX
    rw [(perm_merge_lasting _).mem_iff, lasting_append]
    rcases List.mem_append.mp hX with hFirst | hSecond
    · rcases List.mem_filter.mp hFirst with ⟨hOwn, hKept⟩
      apply List.mem_append_left
      rw [keys_merge] at hKept
      refine List.mem_filter.mpr ⟨(perm_merge_lasting xs).mem_iff.mp hOwn, ?_⟩
      simpa [List.mem_eraseDups] using hKept
    · exact List.mem_append_right _ ((perm_merge_lasting ys).mem_iff.mp hSecond)

theorem merge_flatten_merge (xss : List (List α)) :
    merge key (xss.map (merge key)).flatten = merge key xss.flatten := by
  induction xss with
  | nil => rfl
  | cons xs xss ih =>
    rw [List.map_cons, List.flatten_cons, List.flatten_cons,
      ← merge_merge_append, merge_of_nodup (nodup_merge xs), ih, merge_merge_append]

----
-- Lists One After Another
----

section Flatten

variable {enc : α → τ} {xss yss : List (List α)}

theorem perm_map_flatten
    (hPerm : List.Forall₂ (fun xs ys => (xs.map enc).Perm (ys.map enc)) xss yss) :
    (xss.flatten.map enc).Perm (yss.flatten.map enc) := by
  induction hPerm with
  | nil => exact List.Perm.refl _
  | cons hHead _ ih =>
    rw [List.flatten_cons, List.flatten_cons, List.map_append, List.map_append]
    exact hHead.append ih

/- The lasting entries of lists one after another, seen through a map that tells the keys. -/
theorem perm_map_lasting_flatten {dec : τ → κ} (hDec : ∀ x, dec (enc x) = key x)
    (hNodup : ∀ xs ∈ xss, (xs.map key).Nodup) (hNodup' : ∀ ys ∈ yss, (ys.map key).Nodup)
    (hPerm : List.Forall₂ (fun xs ys => (xs.map enc).Perm (ys.map enc)) xss yss) :
    ((lasting key xss.flatten).map enc).Perm ((lasting key yss.flatten).map enc) := by
  induction hPerm with
  | nil => exact List.Perm.refl _
  | @cons xs ys xss yss hHead hTail ih =>
    rw [List.forall_mem_cons] at hNodup hNodup'
    have hKeys : ∀ zs : List α, zs.map key = (zs.map enc).map dec := by
      intro zs
      rw [List.map_map]
      exact List.map_congr_left fun z _ => (hDec z).symm
    -- which entries of the head are replaced is told from
    -- their images
    have hFilter : ∀ zs : List α, ∀ later : List κ,
        (zs.filter fun z => key z ∉ later).map enc =
          (zs.map enc).filter fun t => dec t ∉ later := by
      intro zs later
      rw [List.filter_map]
      simp only [Function.comp_def, hDec]
    have hLater : ∀ k, k ∈ xss.flatten.map key ↔ k ∈ yss.flatten.map key := by
      intro k
      rw [hKeys, hKeys]
      exact ((perm_map_flatten hTail).map dec).mem_iff
    rw [List.flatten_cons, List.flatten_cons, lasting_append,
      lasting_append, List.map_append, List.map_append,
      lasting_of_nodup hNodup.1, lasting_of_nodup hNodup'.1, hFilter, hFilter]
    refine List.Perm.append ?_ (ih hNodup.2 hNodup'.2)
    simp only [hLater]
    exact hHead.filter _

end Flatten

end LastWins
