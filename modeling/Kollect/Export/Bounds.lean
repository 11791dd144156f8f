import Mathlib.Algebra.Order.BigOperators.Group.List
import Mathlib.Algebra.Order.Group.Nat
import Kollect.Export.Wire

/-
  The sizes of envelopes and the limits that parts keep (`export/partition.go`).

  The size of an envelope is a sum of what its members take. It grows with the rows, and with the
  numbers in the marker; so a part is no larger than what was measured for it.

  Key theorems include:
    * `Wire.partitionEnvelopes_spec`
-/

namespace Kollect
namespace Export

open Collect

----
-- Sizes
----

section Sizes

variable (sha : Digest)

/- A digest takes the same room, whatever it is of. -/
theorem byteLen_quote_hex (s : Text) : Text.byteLen (Json.quote (sha.hex s)) = 66 := by
  have hPlain : ∀ c ∈ ("0123456789abcdef" : String).toList,
      Json.escapeRune c = [c] ∧ c.utf8Size = 1 := by
    intro c hC
    have hAll : ("0123456789abcdef" : String).toList.all
        (fun c => decide (Json.escapeRune c = [c] ∧ c.utf8Size = 1)) = true := rfl
    exact of_decide_eq_true (List.all_eq_true.mp hAll c hC)
  have hSame : (sha.hex s).flatMap Json.escapeRune = sha.hex s := by
    have hEach : ∀ t : Text,
        (∀ c ∈ t, Json.escapeRune c = [c]) → t.flatMap Json.escapeRune = t := by
      intro t hT
      induction t with
      | nil => rfl
      | cons c t ih =>
        rw [List.forall_mem_cons] at hT
        rw [List.flatMap_cons, hT.1, ih hT.2]
        rfl
    exact hEach _ fun c hC => (hPlain c (sha.digits s c hC)).1
  have hLen : Text.byteLen (sha.hex s) = 64 := by
    rw [Json.byteLen_eq_length fun c hC => (hPlain c (sha.digits s c hC)).2, sha.length_hex]
  have hQuote : Char.utf8Size '"' = 1 := by decide
  unfold Json.quote
  rw [hSame, List.cons_append, Json.byteLen_cons, Text.byteLen_append, hLen, Json.byteLen_cons,
    Json.byteLen_nil, hQuote]

def rowsSize (rows : List Item) : Nat := Text.byteLen (Json.encode (.arr (rows.map itemJson)))

theorem rowsSize_eq {rows : List Item} (hNe : rows ≠ []) :
    rowsSize rows = 1 + (rows.map fun row => Text.byteLen (wireText row) + 1).sum := by
  unfold rowsSize
  rw [Json.byteLen_encode_arr (by simpa using hNe), List.map_map]
  rfl

theorem rowsSize_mono {rows rows' : List Item} (hSub : rows.Subperm rows') :
    rowsSize rows ≤ rowsSize rows' := by
  by_cases hNil : rows = []
  · subst hNil
    by_cases hNil' : rows' = []
    · rw [hNil']
    · rw [rowsSize_eq hNil']
      cases rows' with
      | nil => exact absurd rfl hNil'
      | cons row rows' =>
        have hTwo : rowsSize [] = 2 := by decide
        rw [hTwo, List.map_cons, List.sum_cons]
        omega
  · have hNil' : rows' ≠ [] := by
      rintro rfl
      exact hNil (List.subperm_nil.mp hSub)
    rw [rowsSize_eq hNil, rowsSize_eq hNil']
    rcases hSub with ⟨mid, hPerm, hList⟩
    have hSum := (hPerm.map fun row => Text.byteLen (wireText row) + 1).sum_eq
    have hLe := (hList.map fun row =>
      Text.byteLen (wireText row) + 1).sum_le_sum (fun _ _ => Nat.zero_le _)
    omega

theorem memberSize_omitZero_mono (key : Text) {m n : Nat} (hLe : m ≤ n) :
    ((omitZero key m).map Json.memberSize).sum ≤ ((omitZero key n).map Json.memberSize).sum := by
  unfold omitZero
  by_cases hZero : (m : Int) = 0
  · rw [if_pos hZero]
    exact Nat.zero_le _
  · have hZero' : (n : Int) ≠ 0 := by omega
    rw [if_neg hZero, if_neg hZero']
    have hDigits := Json.byteLen_encode_nat_mono hLe
    simp only [List.map_cons, List.map_nil, List.sum_cons, List.sum_nil, Json.memberSize]
    omega

theorem byteLen_envelopeOf_mono {rows rows' : List Item} (hCount : rows.length ≤ rows'.length)
    (hRows : rowsSize rows ≤ rowsSize rows') (metadata : Metadata) {index index' total total' : Nat}
    (hIndex : index ≤ index') (hTotal : total ≤ total') :
    Text.byteLen (envelopeOf sha rows
        { metadata with partIndex := index, partTotal := total }).encode ≤
      Text.byteLen (envelopeOf sha rows'
        { metadata with partIndex := index', partTotal := total' }).encode := by
  have hI := memberSize_omitZero_mono "partIndex" hIndex
  have hT := memberSize_omitZero_mono "partTotal" hTotal
  have hC := Json.byteLen_encode_nat_mono hCount
  have hSum : ∀ s, Json.memberSize
      (member "checksum" (sha.hex s)) = Text.byteLen (Json.quote "checksum") + 68 := by
    intro s
    unfold Json.memberSize member
    rw [Json.encode, byteLen_quote_hex]
  unfold rowsSize at hRows
  unfold envelopeOf ExportEnvelope.json Metadata.envelope
  rw [Json.byteLen_encode_obj (by simp), Json.byteLen_encode_obj (by simp)]
  simp only [List.map_append, List.map_cons, List.map_nil,
    List.sum_append, List.sum_cons, List.sum_nil, hSum]
  simp only [Json.memberSize] at hI hT ⊢
  omega

end Sizes

----
-- The Loop
----

section Loop

variable {fits : List Item → Bool} {err : Text}

theorem groupItems_error_iff
    (hMono : ∀ current item, fits (current ++ [item]) = true → fits [item] = true)
    (current rest : List Item) : (∃ err', groupItems fits err current rest = .error err') ↔
      ∃ item ∈ rest, fits [item] = false := by
  induction rest generalizing current with
  | nil => simp [groupItems]
  | cons item rest ih =>
    unfold groupItems
    by_cases hFits : fits (current ++ [item]) = true
    · rw [if_pos hFits, ih]
      simp [hMono current item hFits]
    rw [if_neg hFits]
    by_cases hEmpty : current.isEmpty = true
    · rw [if_pos hEmpty]
      rw [List.isEmpty_iff.mp hEmpty, List.nil_append] at hFits
      simp [hFits]
    rw [if_neg hEmpty]
    by_cases hOne : fits [item] = true
    · have hNot : ¬ (!fits [item]) = true := by simp [hOne]
      rw [if_neg hNot, List.exists_mem_cons_iff, hOne]
      have hRest := ih [item]
      cases hTail : groupItems fits err [item] rest with
      | error err' =>
        rw [hTail] at hRest
        exact ⟨fun _ => .inr (hRest.mp ⟨err', rfl⟩), fun _ => ⟨err', rfl⟩⟩
      | ok groups =>
        rw [hTail] at hRest
        simpa [Except.map] using hRest
    · rw [if_pos (by simp [hOne])]
      simp [hOne]

end Loop

theorem length_le_length_flatten {groups : List (List Item)} (hNe : ∀ group ∈ groups, group ≠ []) :
    groups.length ≤ groups.flatten.length := by
  induction groups with
  | nil => exact Nat.le_refl _
  | cons group groups ih =>
    rw [List.forall_mem_cons] at hNe
    have hPos := List.length_pos_iff.mpr hNe.1
    have hRest := ih hNe.2
    rw [List.flatten_cons, List.length_append, List.length_cons]
    omega

----
-- Parts Keep The Limit
----

namespace Wire

section Spec

variable {S : Sorter Text} {sha : Digest} {metadata : Metadata} {maxBytes : Int}

theorem envelopeSize_mono {xs ys : List Item} (hSub : xs.Subperm ys)
    (metadata : Metadata) {index index' total total' : Nat}
    (hIndex : index ≤ index') (hTotal : total ≤ total') :
    envelopeSize S sha xs { metadata with partIndex := index, partTotal := total } ≤
      envelopeSize S sha ys { metadata with partIndex := index', partTotal := total' } := by
  have hSorted : (canonicalItems S xs).Subperm (canonicalItems S ys) :=
    ((S.perm_sortBy _ xs).subperm.trans hSub).trans (S.perm_sortBy _ ys).symm.subperm
  unfold envelopeSize envelopeBytes
  rw [Int.ofNat_le]
  exact byteLen_envelopeOf_mono sha hSorted.length_le (rowsSize_mono hSorted) metadata hIndex hTotal

theorem envelopeSize_perm {xs ys : List Item} (hPerm : xs.Perm ys) (metadata : Metadata) :
    envelopeSize S sha xs metadata = envelopeSize S sha ys metadata :=
  le_antisymm (envelopeSize_mono hPerm.subperm metadata (Nat.le_refl _) (Nat.le_refl _))
    (envelopeSize_mono hPerm.symm.subperm metadata (Nat.le_refl _) (Nat.le_refl _))

/-
  Parts of some rows. Each has its share of the rows, in order; no part is too large; parts of
  several are marked and not empty, and a single one is not marked.
-/
structure Partitioned
    (S : Sorter Text) (sha : Digest) (items : List Item) (metadata : Metadata) (maxBytes : Int)
    (parts : List EnvelopePartition) : Prop where
  bounded : ∀ part ∈ parts, (Text.byteLen part.envelope.encode : Int) ≤ maxBytes
  rows : ∃ shares : List (List Item),
    shares.flatten.Perm items ∧
      List.Forall₂
        (fun part share =>
          part.itemCount = share.length ∧
          part.envelope.field? "items" = some (.arr (share.map itemJson)) ∧
          (1 < parts.length → share ≠ [])) parts shares
  marked : 1 < parts.length → ∀ (k : Nat) part, parts[k]? = some part →
      part.index = k + 1 ∧ part.total = parts.length ∧
      part.envelope.field? "partIndex" = some (.int ((k + 1 : Nat) : Int)) ∧
      part.envelope.field? "partTotal" = some (.int (parts.length : Int))
  one : parts.length = 1 ↔ envelopeSize S sha items metadata ≤ maxBytes
  some_ : parts ≠ []
  single : ∀ part, parts = [part] → part.envelope.field? "partIndex" = none ∧
    part.envelope.field? "partTotal" = none ∧ ((items.map itemCanonicalKey).Nodup →
      .ok part.envelope.encode = marshalExportEnvelope S sha items metadata)

theorem partitionEnvelopes_eq {items : List Item}
    (hWritable : ∀ item ∈ items, (itemJson item).unsupported? = none) :
    partitionEnvelopes S sha items metadata maxBytes =
      (partitionItemGroups S sha (S.sortBy wireText items) metadata maxBytes).map fun groups =>
          groups.mapIdx fun i group => partOf S sha metadata (i + 1) groups.length group := by
  unfold partitionEnvelopes stableItems
  rw [List.findSome?_eq_none_iff.mpr hWritable]
  dsimp only [bind, Except.bind]
  cases partitionItemGroups S sha (S.sortBy wireText items) metadata maxBytes with
  | error err => rfl
  | ok groups => rfl

theorem perm_flatten_canonicalItems (groups : List (List Item)) :
    (groups.map (canonicalItems S)).flatten.Perm groups.flatten := by
  induction groups with
  | nil => exact List.Perm.refl _
  | cons group groups ih =>
    rw [List.map_cons, List.flatten_cons, List.flatten_cons]
    exact (S.perm_sortBy _ group).append ih

theorem shares_of_groups {groups : List (List Item)}
    (hNe : 1 < groups.length → ∀ group ∈ groups, group ≠ []) : List.Forall₂
      (fun (part : EnvelopePartition) share =>
        part.itemCount = share.length ∧
        part.envelope.field? "items" = some (.arr (share.map itemJson)) ∧
        (1 < groups.length → share ≠ []))
      (groups.mapIdx fun i group => partOf S sha metadata (i + 1) groups.length group)
      (groups.map (canonicalItems S)) := by
  rw [List.forall₂_iff_get]
  refine ⟨by simp, ?_⟩
  intro i h₁ h₂
  rw [List.length_mapIdx] at h₁
  simp only [List.get_eq_getElem, List.getElem_mapIdx, List.getElem_map]
  refine ⟨(S.length_sortBy _ _).symm, items_json _, ?_⟩
  intro hMany hNil
  refine hNe hMany groups[i] (List.getElem_mem h₁) ?_
  exact List.length_eq_zero_iff.mp
    ((S.length_sortBy itemCanonicalKey _).symm.trans (List.length_eq_zero_iff.mpr hNil))

section Parts

variable {items sorted : List Item}

variable (hSorted : sorted.Perm items) (hMarker : metadata.partIndex = 0 ∧ metadata.partTotal = 0)

include hSorted hMarker in
theorem partitioned_one (hWritable : ∀ item ∈ items, (itemJson item).unsupported? = none)
    (hFits : envelopeSize S sha items metadata ≤ maxBytes) :
    Partitioned S sha items metadata maxBytes
      ([sorted].mapIdx fun i group => partOf S sha metadata (i + 1) [sorted].length group) := by
  have hSize : envelopeSize S sha sorted metadata ≤ maxBytes := by
    rw [envelopeSize_perm hSorted]
    exact hFits
  refine ⟨?_, ?_, ?_, ?_, ?_, ?_⟩
  · intro part hMem
    rw [List.mem_singleton.mp hMem]
    exact hSize
  · have hOnce : 1 < [sorted].length → ∀ group ∈ [sorted], group ≠ [] := by simp
    refine ⟨[sorted].map (canonicalItems S), ?_, shares_of_groups hOnce⟩
    refine (perm_flatten_canonicalItems [sorted]).trans ?_
    simpa using hSorted
  · intro hMany
    exact absurd hMany (Nat.lt_irrefl 1)
  · exact ⟨fun _ => hFits, fun _ => rfl⟩
  · exact List.cons_ne_nil _ _
  · rintro part hPart
    cases hPart
    refine ⟨?_, ?_, fun hNodup => ?_⟩
    · exact (markers_json _).2.1.trans (if_neg (not_not.mpr (Int.natCast_eq_zero.mpr hMarker.1)))
    · exact (markers_json _).2.2.trans (if_neg (not_not.mpr (Int.natCast_eq_zero.mpr hMarker.2)))
    · have hSame : canonicalItems S sorted = canonicalItems S items := by
        refine S.sortBy_eq_of_perm _ hSorted ?_
        exact (hSorted.map _).nodup_iff.mpr hNodup
      have hNone : (Json.arr ((canonicalItems S items).map itemJson)).unsupported? = none := by
        refine Json.unsupported?_arr.mpr ?_
        rintro document hDocument
        rcases List.mem_map.mp hDocument with ⟨item, hMem, rfl⟩
        exact hWritable item ((S.mem_sortBy _).mp hMem)
      unfold marshalExportEnvelope
      dsimp only
      rw [hNone, ← hSame]
      rfl

include hSorted hMarker in
theorem envelopeSize_le_measured (sha : Digest) : envelopeSize S sha items metadata ≤
      envelopeSize S sha sorted (measureMeta metadata sorted.length) := by
  have hPlain : metadata = { metadata with partIndex := 0, partTotal := 0 } := by
    rcases metadata with ⟨generation, cluster, at_, index, total⟩
    rcases hMarker with ⟨rfl, rfl⟩
    rfl
  rw [hPlain]
  exact envelopeSize_mono hSorted.symm.subperm metadata (Nat.zero_le _) (Nat.zero_le _)

include hSorted hMarker in
/- Several parts, each measured with the widest marker. -/
theorem partitioned_many (hLarge : maxBytes < envelopeSize S sha items metadata)
    (hRows : items ≠ []) {err : Text} {groups : List (List Item)} (hGroups : groupItems
        (fun candidate =>
          envelopeSize S sha candidate (measureMeta metadata sorted.length) ≤ maxBytes)
        err [] sorted = .ok groups) : Partitioned S sha items metadata maxBytes
      (groups.mapIdx fun i group => partOf S sha metadata (i + 1) groups.length group) := by
  rcases groupItems_spec (absurd rfl) hGroups with ⟨hFlat, hEach⟩
  rw [List.nil_append] at hFlat
  have hNe := fun group hMem => (hEach group hMem).1
  have hFits := fun group hMem => (hEach group hMem).2
  have hFew : groups.length ≤ sorted.length := by
    rw [← hFlat]
    exact length_le_length_flatten hNe
  -- one group would be all rows, which do not fit
  have hMany : 1 < groups.length := by
    cases groups with
    | nil =>
      rw [List.flatten_nil] at hFlat
      exact absurd (hSorted.symm.trans (hFlat ▸ List.Perm.refl _)).eq_nil hRows
    | cons group groups =>
      cases groups with
      | cons next groups => simp
      | nil =>
        rw [List.flatten_singleton] at hFlat
        have hAll := of_decide_eq_true (hFits group List.mem_cons_self)
        have hLess := envelopeSize_le_measured (S := S) hSorted hMarker sha
        rw [hFlat] at hAll
        omega
  have hLength : (groups.mapIdx fun i group =>
      partOf S sha metadata (i + 1) groups.length
        group).length = groups.length := List.length_mapIdx
  have hMeta : ∀ index, partMetadata metadata index
      groups.length = { metadata with partIndex := index, partTotal := groups.length } :=
    fun index => if_pos hMany
  refine ⟨?_, ?_, ?_, ?_, ?_, ?_⟩
  · intro part hMem
    rcases List.mem_iff_getElem.mp hMem with ⟨k, hK, rfl⟩
    rw [hLength] at hK
    rw [List.getElem_mapIdx]
    have hGroup := of_decide_eq_true (hFits groups[k] (List.getElem_mem hK))
    refine le_trans ?_ hGroup
    change envelopeSize S sha groups[k] (partMetadata metadata (k + 1) groups.length) ≤ _
    rw [hMeta]
    exact envelopeSize_mono (List.Subperm.refl _) metadata (by omega) hFew
  · refine ⟨groups.map (canonicalItems S), ?_, ?_⟩
    · refine (perm_flatten_canonicalItems groups).trans ?_
      rw [hFlat]
      exact hSorted
    · rw [hLength]
      exact shares_of_groups fun _ => hNe
  · intro _ k part hPart
    rw [List.getElem?_mapIdx] at hPart
    rcases Option.map_eq_some_iff.mp hPart with ⟨group, hGroup, rfl⟩
    rw [hLength]
    refine ⟨rfl, rfl, ?_, ?_⟩
    · refine (markers_json _).2.1.trans ?_
      rw [hMeta]
      exact if_pos (Int.natCast_ne_zero.mpr (Nat.succ_ne_zero k))
    · refine (markers_json _).2.2.trans ?_
      rw [hMeta]
      exact if_pos (Int.natCast_ne_zero.mpr (by dsimp only; omega))
  · rw [hLength]
    exact ⟨fun hOne => by omega, fun hSmall => by omega⟩
  · intro hNil
    rw [← List.length_eq_zero_iff, hLength] at hNil
    omega
  · intro part hOne
    have hOne' := congrArg List.length hOne
    rw [hLength, List.length_singleton] at hOne'
    omega

theorem measured_mono (sha : Digest) (measured : Metadata) (maxBytes : Int)
    (current : List Item) (item : Item)
    (hFits : decide (envelopeSize S sha (current ++ [item]) measured ≤ maxBytes) = true) :
    decide (envelopeSize S sha [item] measured ≤ maxBytes) = true := by
  refine decide_eq_true (le_trans ?_ (of_decide_eq_true hFits))
  refine envelopeSize_mono ?_ measured (Nat.le_refl _) (Nat.le_refl _)
  exact (List.sublist_append_right current [item]).subperm

end Parts

/-
  Partitioning fails only for a row that is too large by itself; otherwise the parts keep the limit.
-/
theorem partitionEnvelopes_spec (S : Sorter Text) (sha : Digest) (items : List Item)
    (metadata : Metadata) (maxBytes : Int)
    (hWritable : ∀ item ∈ items, (itemJson item).unsupported? = none)
    (hMarker : metadata.partIndex = 0 ∧ metadata.partTotal = 0) (hMax : 0 < maxBytes)
    (hRows : items ≠ [] ∨ envelopeSize S sha items metadata ≤ maxBytes) :
    ((∃ err, partitionEnvelopes S sha items metadata maxBytes = .error err) ↔
      maxBytes < envelopeSize S sha items metadata ∧
        ∃ item ∈ items, maxBytes < envelopeSize S sha [item] (measureMeta metadata items.length)) ∧
    ∀ parts,
      partitionEnvelopes S sha items metadata maxBytes = .ok parts →
        Partitioned S sha items metadata maxBytes parts := by
  have hSorted := S.perm_sortBy wireText items
  rw [partitionEnvelopes_eq hWritable]
  unfold partitionItemGroups
  rw [envelopeSize_perm hSorted]
  by_cases hFits : envelopeSize S sha items metadata ≤ maxBytes
  · rw [if_pos (.inr hFits)]
    refine ⟨⟨fun hErr => ?_, fun hLarge => by omega⟩, ?_⟩
    · rcases hErr with ⟨err, hErr⟩
      cases hErr
    · intro parts hParts
      rw [← Except.ok.inj hParts]
      exact partitioned_one hSorted hMarker hWritable hFits
  · have hNe := hRows.resolve_right hFits
    have hSortedNe : (S.sortBy wireText items).isEmpty ≠ true := by
      rw [ne_eq, List.isEmpty_iff]
      intro hNil
      exact hNe (hNil ▸ hSorted).nil_eq.symm
    rw [if_neg (by omega), if_neg hSortedNe]
    have hError := @groupItems_error_iff (fun candidate => envelopeSize S sha candidate
        (measureMeta metadata (S.sortBy wireText items).length) ≤ maxBytes)
      (tooLarge maxBytes) (measured_mono sha _ maxBytes) [] (S.sortBy wireText items)
    have hMany := fun groups hGroups =>
      @partitioned_many S sha metadata maxBytes items
        (S.sortBy wireText items) hSorted hMarker (by omega) hNe (tooLarge maxBytes) groups hGroups
    generalize groupItems _ (tooLarge maxBytes) []
      (S.sortBy wireText items) = result at hError hMany ⊢
    refine ⟨?_, ?_⟩
    · have hSame : (∃ err, Except.map (fun groups =>
            groups.mapIdx fun i group =>
              partOf S sha metadata (i + 1) groups.length group) result = .error err) ↔
          ∃ err', result = .error err' := by
        cases result with
        | error | ok => simp [Except.map]
      rw [hSame, hError, S.length_sortBy]
      have hLarge : maxBytes < envelopeSize S sha items metadata := by omega
      simp [hLarge]
    · intro parts hParts
      cases result with
      | error err => cases hParts
      | ok groups =>
        rw [← Except.ok.inj hParts]
        exact hMany groups rfl

/- Two rows that need two parts. -/
theorem twins_in_two_parts :
    (partitionEnvelopes Sorter.stable paddedDigest [twin "x", twin "y"] ⟨1, [], [], 0, 0⟩
        400).toOption.map List.length = some 2 ∧
    ∀ parts, partitionEnvelopes Sorter.stable paddedDigest
          [twin "x", twin "y"] ⟨1, [], [], 0, 0⟩ 400 = .ok parts →
        Partitioned Sorter.stable paddedDigest
          [twin "x", twin "y"] ⟨1, [], [], 0, 0⟩ 400 parts := by
  refine ⟨by decide +kernel, (partitionEnvelopes_spec _ _ _ _ _ ?_
    ⟨rfl, rfl⟩ (by decide) (.inl (List.cons_ne_nil _ _))).2⟩
  intro item hMem
  simp only [List.mem_cons, List.not_mem_nil, or_false] at hMem
  rcases hMem with rfl | rfl
  · rfl
  · rfl

end Spec

end Wire

end Export
end Kollect
