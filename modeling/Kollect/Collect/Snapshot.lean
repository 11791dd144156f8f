import Kollect.Collect.Store
import Kollect.Foundation.Run

/-
  What is read from the store, in every order of its maps (`internal/collect/store.go`).

  A read walks over maps whose order is not specified. Two stores with the same rows are one content
  in two orders. A row is filed under its own target and UID, so a read lists every row of the
  content once, whatever the order.

  Key theorems include:
    * `Store.perm_summary`
    * `Store.summary_reversed`
-/

namespace Kollect
namespace Collect

/- The rows of one target, in the order of its map. -/
def bucketRows (bucket : GoMap Text Item) : List Item := bucket.entries.map Sigma.snd

def StoreShard.rows (sh : StoreShard) : List Item :=
  sh.entries.flatMap fun bucket => bucketRows bucket.2

namespace Store

/- Shard after shard. -/
def snapshotAll (s : Store) : List Item := s.shards.entries.flatMap fun sh => StoreShard.rows sh.2

/- The rows of one namespace; of all if none is named. -/
def summary (s : Store) (namespace_ : Text) : List Item :=
  if namespace_ = [] then s.snapshotAll
  else s.snapshotNamespace namespace_

/- Every row has its own target and UID as its key. -/
def Filed (s : Store) : Prop :=
  ∀ ns name uid item, s.row? ns name uid = some item →
    item.targetNamespace = ns ∧ item.targetName = name ∧ item.uid = uid

/- One content, in two orders of its maps. -/
def SameRows (s s' : Store) : Prop := ∀ ns name uid, s.row? ns name uid = s'.row? ns name uid

----
-- Rows Are Filed
----

theorem filed_empty : Filed empty := by
  intro ns name uid item hRow
  cases hRow

variable {s : Store}

theorem filed_mutate (hFiled : s.Filed) (m : Mutation) : (s.mutate m).Filed := by
  intro ns name uid item hRow
  cases m with
  | upsert new =>
    unfold mutate at hRow
    rw [row?_upsert] at hRow
    split_ifs at hRow with hKey
    · cases hRow
      exact ⟨hKey.1.symm, hKey.2.1.symm, hKey.2.2.symm⟩
    · exact hFiled ns name uid item hRow
  | remove tns tname tuid =>
    unfold mutate at hRow
    rw [row?_remove] at hRow
    split_ifs at hRow
    exact hFiled ns name uid item hRow
  | removeTarget tns tname =>
    unfold mutate at hRow
    rw [row?_removeTarget] at hRow
    split_ifs at hRow
    exact hFiled ns name uid item hRow

theorem filed_exec (history : List Mutation) : (Run.exec mutate empty history).Filed := by
  have hStep : ∀ s m, Filed s → Filed (s.mutate m) := fun _ m hFiled => filed_mutate hFiled m
  exact Run.exec_preserves hStep filed_empty history

variable {s' : Store}

theorem Filed.of_sameRows (hFiled : s.Filed) (hSame : s.SameRows s') : s'.Filed := by
  intro ns name uid item hRow
  exact hFiled ns name uid item (by rw [hSame, hRow])

----
-- What A Read Lists
----

variable {bucket : GoMap Text Item} {item : Item}

theorem mem_bucketRows : item ∈ bucketRows bucket ↔ ∃ uid, bucket.lookup uid = some item := by
  unfold bucketRows
  rw [List.mem_map]
  constructor
  · intro hMem
    rcases hMem with ⟨⟨uid, row⟩, hEntry, hEq⟩
    subst hEq
    exact ⟨uid, AList.mem_lookup_iff.mpr hEntry⟩
  · intro hRow
    rcases hRow with ⟨uid, hLook⟩
    exact ⟨⟨uid, item⟩, AList.mem_lookup_iff.mp hLook, rfl⟩

theorem mem_rows {sh : StoreShard} : item ∈ sh.rows ↔ ∃ name uid, sh.row? name uid = some item := by
  unfold StoreShard.rows StoreShard.row?
  rw [List.mem_flatMap]
  constructor
  · intro hMem
    rcases hMem with ⟨⟨name, bucket⟩, hEntry, hItem⟩
    rcases mem_bucketRows.mp hItem with ⟨uid, hLook⟩
    have hName : sh.lookup name = some bucket := AList.mem_lookup_iff.mpr hEntry
    exact ⟨name, uid, by rw [hName]; exact hLook⟩
  · intro hRow
    rcases hRow with ⟨name, uid, hRow⟩
    rcases Option.bind_eq_some_iff.mp hRow with ⟨bucket, hName, hLook⟩
    exact ⟨⟨name, bucket⟩, AList.mem_lookup_iff.mp hName, mem_bucketRows.mpr ⟨uid, hLook⟩⟩

theorem snapshotNamespace_eq (s : Store) (ns : Text) : s.snapshotNamespace ns = (s.shard ns).rows :=
  rfl

variable {ns : Text}

theorem mem_snapshotNamespace :
    item ∈ s.snapshotNamespace ns ↔ ∃ name uid, s.row? ns name uid = some item :=
  mem_rows

theorem mem_snapshotAll : item ∈ s.snapshotAll ↔ ∃ ns name uid, s.row? ns name uid = some item := by
  unfold snapshotAll row? shard
  rw [List.mem_flatMap]
  constructor
  · intro hMem
    rcases hMem with ⟨⟨ns, sh⟩, hEntry, hItem⟩
    have hNs : s.shards.lookup ns = some sh := AList.mem_lookup_iff.mpr hEntry
    rcases mem_rows.mp hItem with ⟨name, uid, hRow⟩
    exact ⟨ns, name, uid, by rw [hNs]; exact hRow⟩
  · intro hRow
    rcases hRow with ⟨ns, name, uid, hRow⟩
    cases hNs : s.shards.lookup ns with
    | none =>
      rw [hNs] at hRow
      cases hRow
    | some sh =>
      rw [hNs] at hRow
      exact ⟨⟨ns, sh⟩, AList.mem_lookup_iff.mp hNs, mem_rows.mpr ⟨name, uid, hRow⟩⟩

theorem mem_summary : item ∈ s.summary ns ↔
      ∃ ns' name uid, (ns = [] ∨ ns' = ns) ∧ s.row? ns' name uid = some item := by
  unfold summary
  split_ifs with hAll
  · rw [mem_snapshotAll]
    simp [hAll]
  · rw [mem_snapshotNamespace]
    simp [hAll]

----
-- Each Row Is Listed Once
----

theorem nodup_bucketRows (hKeys : ∀ uid item, bucket.lookup uid = some item → item.uid = uid) :
    (bucketRows bucket).Nodup := by
  apply List.Nodup.of_map Item.uid
  have hUids : (bucketRows bucket).map Item.uid = bucket.entries.map Sigma.fst := by
    unfold bucketRows
    rw [List.map_map]
    apply List.map_congr_left
    intro entry hEntry
    exact hKeys entry.1 entry.2 (AList.mem_lookup_iff.mpr hEntry)
  rw [hUids]
  exact bucket.nodupKeys

variable {β : Type} {rows : β → List Item}

theorem nodup_flatMap_of_keys {entries : List (Sigma fun _ : Text => β)} {keyOf : Item → Text}
    (hNodup : (entries.map Sigma.fst).Nodup) (hRows : ∀ entry ∈ entries, (rows entry.2).Nodup)
    (hKeys : ∀ entry ∈ entries, ∀ item ∈ rows entry.2, keyOf item = entry.1) :
    (entries.flatMap fun entry => rows entry.2).Nodup := by
  rw [List.nodup_flatMap]
  refine ⟨hRows, ?_⟩
  have hApart := List.pairwise_map.mp hNodup
  apply hApart.imp_of_mem
  intro entry entry' hEntry hEntry' hNe item hItem hItem'
  exact hNe ((hKeys entry hEntry item hItem).symm.trans (hKeys entry' hEntry' item hItem'))

theorem nodup_rows {sh : StoreShard} (hKeys : ∀ name uid item, sh.row? name uid = some item →
      item.targetName = name ∧ item.uid = uid) : sh.rows.Nodup := by
  have hRow : ∀ entry ∈ sh.entries, ∀ uid item,
      entry.2.lookup uid = some item → sh.row? entry.1 uid = some item := by
    intro entry hEntry uid item hLook
    have hName : sh.lookup entry.1 = some entry.2 := AList.mem_lookup_iff.mpr hEntry
    unfold StoreShard.row?
    rw [hName]
    exact hLook
  apply nodup_flatMap_of_keys sh.nodupKeys
  · intro entry hEntry
    apply nodup_bucketRows
    intro uid item hLook
    exact (hKeys _ uid item (hRow entry hEntry uid item hLook)).2
  · intro entry hEntry item hItem
    rcases mem_bucketRows.mp hItem with ⟨uid, hLook⟩
    exact (hKeys _ uid item (hRow entry hEntry uid item hLook)).1

theorem nodup_snapshotNamespace (hFiled : s.Filed) (ns : Text) :
    (s.snapshotNamespace ns).Nodup := by
  apply nodup_rows
  intro name uid item hRow
  exact (hFiled ns name uid item hRow).2

theorem mem_snapshotTarget {name : Text} :
    item ∈ s.snapshotTarget ns name ↔ ∃ uid, s.row? ns name uid = some item := by
  have hBucket : item ∈ s.snapshotTarget ns name ↔ ∃ uid,
      (((s.shard ns).lookup name).getD ∅).lookup uid = some item :=
    mem_bucketRows
  rw [hBucket]
  unfold row? StoreShard.row?
  cases (s.shard ns).lookup name with
  | none | some => exact Iff.rfl

theorem nodup_snapshotTarget (hFiled : s.Filed) (ns name : Text) :
    (s.snapshotTarget ns name).Nodup := by
  apply nodup_bucketRows
  intro uid item hLook
  cases hName : (s.shard ns).lookup name with
  | none =>
    rw [hName] at hLook
    cases hLook
  | some bucket =>
    rw [hName] at hLook
    refine (hFiled ns name uid item ?_).2.2
    unfold row? StoreShard.row?
    rw [hName]
    exact hLook

theorem nodup_snapshotAll (hFiled : s.Filed) : s.snapshotAll.Nodup := by
  have hRow : ∀ entry ∈ s.shards.entries, ∀ name uid item,
      StoreShard.row? entry.2 name uid = some item → s.row? entry.1 name uid = some item := by
    intro entry hEntry name uid item hLook
    have hNs : s.shards.lookup entry.1 = some entry.2 := AList.mem_lookup_iff.mpr hEntry
    unfold row? shard
    rw [hNs]
    exact hLook
  apply nodup_flatMap_of_keys s.shards.nodupKeys
  · intro entry hEntry
    apply nodup_rows
    intro name uid item hLook
    exact (hFiled _ name uid item (hRow entry hEntry name uid item hLook)).2
  · intro entry hEntry item hItem
    rcases mem_rows.mp hItem with ⟨name, uid, hLook⟩
    exact (hFiled _ name uid item (hRow entry hEntry name uid item hLook)).1

theorem nodup_summary (hFiled : s.Filed) (ns : Text) : (s.summary ns).Nodup := by
  unfold summary
  split_ifs
  · exact nodup_snapshotAll hFiled
  · exact nodup_snapshotNamespace hFiled ns

theorem perm_snapshotTarget (hFiled : s.Filed) (hSame : s.SameRows s') (ns name : Text) :
    (s.snapshotTarget ns name).Perm (s'.snapshotTarget ns name) := by
  rw [List.perm_ext_iff_of_nodup (nodup_snapshotTarget hFiled ns name)
    (nodup_snapshotTarget (hFiled.of_sameRows hSame) ns name)]
  intro item
  rw [mem_snapshotTarget, mem_snapshotTarget]
  simp only [hSame ns]

theorem perm_summary (hFiled : s.Filed) (hSame : s.SameRows s') (ns : Text) :
    (s.summary ns).Perm (s'.summary ns) := by
  rw [List.perm_ext_iff_of_nodup (nodup_summary hFiled ns)
    (nodup_summary (hFiled.of_sameRows hSame) ns)]
  intro item
  rw [mem_summary, mem_summary]
  simp only [hSame _]

----
-- The Opposite Order
----

/- The same map, walked from its other end. -/
def reversedMap {β : Type} (m : GoMap Text β) : GoMap Text β :=
  ⟨m.entries.reverse, by
    have hKeys : (m.entries.reverse.map Sigma.fst).Nodup := by
      rw [List.map_reverse, List.nodup_reverse]
      exact m.nodupKeys
    exact hKeys⟩

theorem lookup_reversedMap (m : GoMap Text β) (key : Text) :
    (reversedMap m).lookup key = m.lookup key := by
  apply Option.ext
  intro value
  rw [← Option.mem_def, ← Option.mem_def, AList.mem_lookup_iff, AList.mem_lookup_iff]
  exact List.mem_reverse

/- The entries of a map, each one changed. -/
def mapEntries {β γ : Type} (change : β → γ) (m : GoMap Text β) : GoMap Text γ :=
  ⟨m.entries.map fun entry => ⟨entry.1, change entry.2⟩, by
    have hKeys : ((m.entries.map fun entry =>
        (⟨entry.1, change entry.2⟩ : Sigma fun _ : Text => γ)).map Sigma.fst).Nodup := by
      rw [List.map_map]
      exact m.nodupKeys
    exact hKeys⟩

theorem lookup_mapEntries {γ : Type} (change : β → γ) (m : GoMap Text β) (key : Text) :
    (mapEntries change m).lookup key = (m.lookup key).map change := by
  apply Option.ext
  intro value
  rw [← Option.mem_def, ← Option.mem_def, AList.mem_lookup_iff,
    Option.mem_def, Option.map_eq_some_iff]
  unfold mapEntries
  rw [List.mem_map]
  constructor
  · intro hMem
    rcases hMem with ⟨⟨key', old⟩, hEntry, hEq⟩
    cases hEq
    exact ⟨old, AList.mem_lookup_iff.mpr hEntry, rfl⟩
  · intro hLook
    rcases hLook with ⟨old, hLook, hEq⟩
    subst hEq
    exact ⟨⟨key, old⟩, AList.mem_lookup_iff.mp hLook, rfl⟩

def reversedShard (sh : StoreShard) : StoreShard := reversedMap (mapEntries reversedMap sh)

def reversed (s : Store) : Store :=
  { s with shards := reversedMap (mapEntries reversedShard s.shards) }

theorem row?_reversedShard (sh : StoreShard) (name uid : Text) :
    (reversedShard sh).row? name uid = sh.row? name uid := by
  unfold StoreShard.row? reversedShard
  rw [lookup_reversedMap, lookup_mapEntries]
  cases sh.lookup name with
  | none => rfl
  | some bucket => exact lookup_reversedMap bucket uid

theorem shard_reversed (s : Store) (ns : Text) :
    s.reversed.shard ns = reversedShard (s.shard ns) := by
  unfold shard reversed
  rw [lookup_reversedMap, lookup_mapEntries]
  cases s.shards.lookup ns with
  | none => rfl
  | some sh => rfl

theorem sameRows_reversed (s : Store) : s.SameRows s.reversed := by
  intro ns name uid
  unfold row?
  rw [shard_reversed, row?_reversedShard]

/- A walk from the other end lists everything backwards. -/
theorem flatMap_reversed {change : β → β} (hRows : ∀ b, rows (change b) = (rows b).reverse)
    (m : GoMap Text β) :
    ((reversedMap (mapEntries change m)).entries.flatMap fun entry => rows entry.2) =
      (m.entries.flatMap fun entry => rows entry.2).reverse := by
  unfold reversedMap mapEntries
  dsimp only
  rw [← List.map_reverse, List.flatMap_map, List.reverse_flatMap]
  simp only [hRows]
  rfl

theorem rows_reversedShard (sh : StoreShard) : (reversedShard sh).rows = sh.rows.reverse := by
  apply flatMap_reversed
  intro bucket
  unfold bucketRows reversedMap
  rw [List.map_reverse]

theorem summary_reversed (s : Store) (ns : Text) :
    s.reversed.summary ns = (s.summary ns).reverse := by
  unfold summary
  split_ifs
  · exact flatMap_reversed rows_reversedShard s.shards
  · rw [snapshotNamespace_eq, snapshotNamespace_eq, shard_reversed, rows_reversedShard]

----
-- Whole Histories
----

/- What a store is for: one map from target and UID to the row. -/
abbrev Rows := Text → Text → Text → Option Item

def Rows.mutate (rows : Rows) (m : Mutation) : Rows := fun ns name uid =>
  match m with
  | .upsert item =>
    if ns = item.targetNamespace ∧ name = item.targetName ∧ uid = item.uid then some item
    else rows ns name uid
  | .remove tns tname tuid =>
    if ns = tns ∧ name = tname ∧ uid = tuid then none else rows ns name uid
  | .removeTarget tns tname => if ns = tns ∧ name = tname then none else rows ns name uid

theorem row?_mutate (s : Store) (m : Mutation) : Rows.mutate s.row? m = (s.mutate m).row? := by
  funext ns name uid
  cases m with
  | upsert item => exact (row?_upsert ..).symm
  | remove tns tname tuid => exact (row?_remove ..).symm
  | removeTarget tns tname => exact (row?_removeTarget ..).symm

/- The nested maps hold what the one map holds, and a read lists each row of it once. -/
theorem reads_list_one_map (history : List Mutation) (ns : Text) :
    let rows : Rows := Run.exec Rows.mutate (fun _ _ _ => none) history
    let listed := (Run.exec mutate empty history).summary ns
    listed.Nodup ∧ ∀ item, item ∈ listed ↔ (ns = [] ∨ item.targetNamespace = ns) ∧
      rows item.targetNamespace item.targetName item.uid = some item := by
  have hRows : Run.exec Rows.mutate empty.row? history = (Run.exec mutate empty history).row? :=
    List.foldl_hom row? row?_mutate
  have hFiled := filed_exec history
  refine ⟨nodup_summary hFiled ns, fun item => ?_⟩
  change _ ↔ _ ∧ Run.exec Rows.mutate empty.row? history _ _ _ = _
  rw [hRows, mem_summary]
  constructor
  · rintro ⟨ns', name, uid, hNs, hRow⟩
    obtain ⟨rfl, rfl, rfl⟩ := hFiled ns' name uid item hRow
    exact ⟨hNs, hRow⟩
  · rintro ⟨hNs, hRow⟩
    exact ⟨_, _, _, hNs, hRow⟩

/- A counter that has not moved vouches for the rows of its namespace. -/
theorem version_vouches_for_rows (s : Store) (later : List Mutation) (ns : Text) :
    let after := Run.exec mutate s later
    s.namespaceVersion ns ≤ after.namespaceVersion ns ∧
      (after.namespaceVersion ns = s.namespaceVersion ns → after.shard ns = s.shard ns) := by
  induction later generalizing s with
  | nil => exact ⟨Nat.le_refl _, fun _ => rfl⟩
  | cons m later ih =>
    rcases ih (s.mutate m) with ⟨hLe, hSame⟩
    rw [Run.exec_cons]
    rcases mutate_cases s m ns with ⟨hShard, hVersion⟩ | hVersion
    · rw [hVersion] at hLe hSame
      rw [hShard] at hSame
      exact ⟨hLe, hSame⟩
    · exact ⟨by omega, fun hEq => by omega⟩

/- What the readers of a namespace see. -/
def view (s : Store) (ns : Text) : StoreShard × Nat := (s.shard ns, s.namespaceVersion ns)

theorem view_bump_setShard (s : Store) (tns ns : Text) (sh : StoreShard) :
    ((s.setShard tns sh).bumpNamespaceVersion tns).view ns =
      if ns = tns then (sh, s.namespaceVersion ns + 1) else s.view ns := by
  unfold view
  rw [shard_bumpNamespaceVersion, shard_setShard, namespaceVersion_bumpNamespaceVersion]
  split_ifs with hNs
  · rw [hNs]
    rfl
  · rfl

theorem view_shardFor (s : Store) (tns ns : Text) : (s.shardFor tns).view ns = s.view ns :=
  Prod.ext (shard_shardFor ..) rfl

/- A mutation changes the view of its own namespace, by what is seen there. -/
theorem exists_view_mutate (m : Mutation) : ∃ change : StoreShard × Nat → StoreShard × Nat,
    ∀ (s : Store) (ns : Text), (s.mutate m).view ns =
      if ns = m.targetNamespace then change (s.view ns) else s.view ns := by
  cases m with
  | upsert item =>
    refine ⟨fun v => (v.1.insert item.targetName
      (((v.1.lookup item.targetName).getD ∅).insert item.uid item), v.2 + 1), fun s ns => ?_⟩
    refine (view_bump_setShard ..).trans (ite_congr rfl ?_ fun _ => rfl)
    rintro rfl
    rfl
  | removeTarget tns tname =>
    refine ⟨fun v => (v.1.erase tname, v.2 + 1), fun s ns => ?_⟩
    refine (view_bump_setShard ..).trans (ite_congr rfl ?_ fun _ => rfl)
    rintro rfl
    rfl
  | remove tns tname uid =>
    refine ⟨fun v => (v.1.lookup tname).elim v fun bucket =>
      (v.1.dropRow tname bucket uid, v.2 + 1), fun s ns => ?_⟩
    unfold mutate remove
    dsimp only
    cases hBucket : (s.shard tns).lookup tname with
    | none =>
      refine (view_shardFor ..).trans (right_eq_ite_iff.mpr ?_)
      rintro rfl
      simp [view, hBucket]
    | some bucket =>
      refine (view_bump_setShard ..).trans (ite_congr rfl ?_ fun _ => rfl)
      rintro rfl
      simp [view, hBucket]

/- The mutations of other namespaces are not seen in a namespace. -/
theorem namespaces_are_apart (history : List Mutation) (ns : Text) :
    (Run.exec mutate empty history).view ns =
      (Run.exec mutate empty (history.filter fun m => ns = m.targetNamespace)).view ns := by
  choose change hChange using exists_view_mutate
  have hRun : ∀ history, (Run.exec mutate empty history).view ns = history.foldl
      (fun v m => if ns = m.targetNamespace then change m v else v) (empty.view ns) :=
    fun history => (List.foldl_hom (view · ns) fun s m => (hChange m s ns).symm).symm
  rw [hRun, hRun, List.foldl_filter]
  congr 1
  funext v m
  by_cases hNs : ns = m.targetNamespace <;> simp [hNs]

end Store

end Collect
end Kollect
