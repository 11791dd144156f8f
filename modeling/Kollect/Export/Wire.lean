import Kollect.Export.Partition
import Kollect.Foundation.JsonWire
import Kollect.Foundation.Sorter

/-
  Envelopes and parts for any way of sorting (`collect/export_envelope.go`, `export/partition.go`).

  `slices.SortFunc` is not stable. What it does to rows with one key depends on the keys alone, so
  it is a `Sorter`. The envelopes of `Kollect.Export.Envelope` are those of the stable one.

  Key theorems include:
    * `Wire.partitionItemGroups_congr`
    * `Wire.parts_and_envelope_of_perm`
-/

namespace Kollect
namespace Export

open Collect

----
-- Rows And Their Wire Form
----

def wireText (item : Item) : Text := Json.encode (itemJson item)

/- Only the attributes of a row can keep it from being written. -/
theorem unsupported?_itemJson_of_attributes {item : Item} (hAttributes :
      ∀ name value, item.attributes.lookup name = some value → value.unsupported? = none) :
    (itemJson item).unsupported? = none := by
  have hRow : (attributesJson item.attributes).unsupported? = none := by
    rw [attributesJson, Json.unsupported?_obj]
    intro field hField
    rcases List.mem_filterMap.mp hField with ⟨key, -, hEq⟩
    rcases Option.map_eq_some_iff.mp hEq with ⟨value, hValue, rfl⟩
    exact hAttributes key value hValue
  have hText : ∀ s, (Json.str s).unsupported? = none := fun _ => rfl
  unfold itemJson omitEmpty member
  rw [Json.unsupported?_obj]
  split_ifs
  · simp [hText, hRow]
  · simp [hText, hRow]

/- Two rows of one resource under one target. -/
structure SameIdentity (a b : Item) : Prop where
  targetNamespace : a.targetNamespace = b.targetNamespace
  targetName : a.targetName = b.targetName
  namespace_ : a.namespace_ = b.namespace_
  name : a.name = b.name
  group : a.group = b.group
  version : a.version = b.version
  kind : a.kind = b.kind
  uid : a.uid = b.uid

/- A row's identity is in its wire form. -/
theorem sameIdentity_of_wireText {a b : Item} (hEq : wireText a = wireText b) :
    SameIdentity a b := by
  unfold wireText itemJson at hEq
  rw [Json.encode, Json.encode, List.cons.injEq] at hEq
  rcases Json.encodeMembers_str_inj hEq.2 with ⟨-, hTargetNs, hEq⟩
  rcases Json.encodeMembers_str_inj hEq with ⟨-, hTarget, hEq⟩
  rcases Json.encodeMembers_str_inj hEq with ⟨-, hNs, hEq⟩
  -- the group is left out when it is empty
  have hGroup : a.group = b.group ∧ a.name = b.name ∧
      Json.encodeMembers [member "version" a.version, member "kind" a.kind, member "uid" a.uid,
          ("attributes".toList, attributesJson a.attributes)] =
      Json.encodeMembers [member "version" b.version, member "kind" b.kind, member "uid" b.uid,
          ("attributes".toList, attributesJson b.attributes)] := by
    unfold omitEmpty at hEq
    by_cases hA : a.group = []
    · by_cases hB : b.group = []
      · rw [if_pos hA, if_pos hB] at hEq
        rcases Json.encodeMembers_str_inj hEq with ⟨-, hName, hEq⟩
        exact ⟨hA.trans hB.symm, hName, hEq⟩
      · rw [if_pos hA, if_neg hB] at hEq
        rcases Json.encodeMembers_str_inj hEq with ⟨-, -, hEq⟩
        exact absurd (Json.encodeMembers_str_inj hEq).1 (by decide)
    · by_cases hB : b.group = []
      · rw [if_neg hA, if_pos hB] at hEq
        rcases Json.encodeMembers_str_inj hEq with ⟨-, -, hEq⟩
        exact absurd (Json.encodeMembers_str_inj hEq).1 (by decide)
      · rw [if_neg hA, if_neg hB] at hEq
        rcases Json.encodeMembers_str_inj hEq with ⟨-, hName, hEq⟩
        rcases Json.encodeMembers_str_inj hEq with ⟨-, hGroup, hEq⟩
        exact ⟨hGroup, hName, hEq⟩
  rcases hGroup with ⟨hGroup, hName, hEq⟩
  rcases Json.encodeMembers_str_inj hEq with ⟨-, hVersion, hEq⟩
  rcases Json.encodeMembers_str_inj hEq with ⟨-, hKind, hEq⟩
  rcases Json.encodeMembers_str_inj hEq with ⟨-, hUid, -⟩
  exact ⟨hTargetNs, hTarget, hNs, hName, hGroup, hVersion, hKind, hUid⟩

theorem SameIdentity.itemCanonicalKey {a b : Item} (hSame : SameIdentity a b) :
    itemCanonicalKey a = itemCanonicalKey b := by
  unfold Export.itemCanonicalKey
  rw [hSame.targetNamespace, hSame.targetName, hSame.namespace_,
    hSame.name, hSame.uid, hSame.group, hSame.version, hSame.kind]

theorem itemCanonicalKey_of_wireText {a b : Item} (hEq : wireText a = wireText b) :
    itemCanonicalKey a = itemCanonicalKey b :=
  (sameIdentity_of_wireText hEq).itemCanonicalKey

/- `json.Marshal` of an envelope whose rows are in order. -/
def envelopeOf (sha : Digest) (sorted : List Item) (metadata : Metadata) : Json :=
  (metadata.envelope sha sorted).json

section Fields

variable (envelope : ExportEnvelope)

theorem lookup_cons_ite (k key : Text) (value : Json) (fields : List (Text × Json)) :
    ((key, value) :: fields).lookup k = if k = key then some value else fields.lookup k := by
  rw [List.lookup_cons]
  by_cases hKey : k = key
  · simp [hKey]
  · rw [beq_eq_false_iff_ne.mpr hKey, if_neg hKey]

theorem lookup_omitZero (key k : Text) (n : Int) :
    (omitZero key n).lookup k = if k = key ∧ n ≠ 0 then some (.int n) else none := by
  unfold omitZero
  by_cases hZero : n = 0
  · simp [hZero]
  · by_cases hKey : k = key <;> simp [hZero, hKey]

theorem lookup_omitEmpty (key k value : Text) : (omitEmpty key value).lookup k =
      if k = key ∧ value ≠ [] then some (.str value)
      else none := by
  unfold omitEmpty
  by_cases hEmpty : value = []
  · simp [hEmpty]
  · by_cases hKey : k = key <;> simp [hEmpty, hKey]

theorem ExportEnvelope.field?_json (k : Text) : envelope.json.field? k =
      ([member "schemaVersion" envelope.schemaVersion,
        member "checksum" envelope.checksum].lookup k).or
      ((if k = "generation" ∧ envelope.generation ≠ 0 then
          some (.int envelope.generation) else none : Option Json).or
      ((if k = "partIndex" ∧ envelope.partIndex ≠ 0 then
          some (.int envelope.partIndex) else none : Option Json).or
      ((if k = "partTotal" ∧ envelope.partTotal ≠ 0 then
          some (.int envelope.partTotal) else none : Option Json).or
      (([("itemCount".toList, Json.int envelope.itemCount),
          member "exportedAt" envelope.exportedAt].lookup k).or
      ((if k = "cluster" ∧ envelope.cluster ≠ [] then
          some (.str envelope.cluster) else none : Option Json).or
      ([("items".toList, Json.arr (envelope.items.map itemJson))].lookup k)))))) := by
  unfold ExportEnvelope.json Json.field?
  simp only [List.lookup_append, lookup_omitZero, lookup_omitEmpty, Option.or_assoc]

/- The numbers that are left out when they are zero. -/
theorem markers_json : envelope.json.field? "generation" =
        (if envelope.generation ≠ 0 then some (.int envelope.generation) else none) ∧
      envelope.json.field? "partIndex" =
        (if envelope.partIndex ≠ 0 then some (.int envelope.partIndex) else none) ∧
      envelope.json.field? "partTotal" =
        (if envelope.partTotal ≠ 0 then some (.int envelope.partTotal) else none) := by
  simp [ExportEnvelope.field?_json, member, lookup_cons_ite]

theorem intMember_of_field? {key : Text} {document : Json} {n : Int}
    (hField : document.field? key = if n ≠ 0 then some (.int n) else none) :
    intMember key document = n := by
  unfold intMember
  rw [hField]
  split_ifs with hZero
  · rfl
  · exact (not_not.mp hZero).symm

theorem intMember_json : intMember "generation" envelope.json = envelope.generation ∧
      intMember "partIndex" envelope.json = envelope.partIndex ∧
      intMember "partTotal" envelope.json = envelope.partTotal ∧
      intMember "itemCount" envelope.json = envelope.itemCount := by
  rcases markers_json envelope with ⟨hGeneration, hIndex, hTotal⟩
  refine ⟨intMember_of_field? hGeneration, intMember_of_field? hIndex,
    intMember_of_field? hTotal, ?_⟩
  unfold intMember
  simp [ExportEnvelope.field?_json, member, lookup_cons_ite]

theorem textMember_json : textMember "schemaVersion" envelope.json = envelope.schemaVersion ∧
      textMember "checksum" envelope.json = envelope.checksum ∧
      textMember "cluster" envelope.json = envelope.cluster ∧
      textMember "exportedAt" envelope.json = envelope.exportedAt := by
  unfold textMember
  simp only [ExportEnvelope.field?_json]
  refine ⟨?_, ?_, ?_, ?_⟩
  · simp [member, lookup_cons_ite]
  · simp [member, lookup_cons_ite]
  · by_cases hEmpty : envelope.cluster = []
    · simp [member, lookup_cons_ite, hEmpty]
    · simp [member, lookup_cons_ite, hEmpty]
  · simp [member, lookup_cons_ite]

theorem items_json : envelope.json.field? "items" = some (.arr (envelope.items.map itemJson)) := by
  rw [ExportEnvelope.field?_json]
  simp [member, lookup_cons_ite]

end Fields

theorem checksum_envelopeOf (sha : Digest) (sorted : List Item) (metadata : Metadata) :
    textMember "checksum" (envelopeOf sha sorted metadata) =
      sha.hex (Json.encode (.arr (sorted.map itemJson))) :=
  (textMember_json _).2.1

theorem encode_envelopeOf_congr (sha : Digest) {xs ys : List Item}
    (hSame : xs.map wireText = ys.map wireText) (metadata : Metadata) :
    (envelopeOf sha xs metadata).encode = (envelopeOf sha ys metadata).encode := by
  have hLength : xs.length = ys.length := by simpa using congrArg List.length hSame
  have hRows : Json.encode (.arr (xs.map itemJson)) = Json.encode (.arr (ys.map itemJson)) := by
    refine Json.encode_arr_congr ?_
    rw [List.map_map, List.map_map]
    exact hSame
  unfold envelopeOf Metadata.envelope
  rw [hRows, hLength]
  exact Json.encode_obj_congr _ _ hRows

namespace Wire

----
-- Envelopes
----

section Sorting

variable (S : Sorter Text) (sha : Digest)

def canonicalItems (items : List Item) : List Item := S.sortBy itemCanonicalKey items

variable (items : List Item) (metadata : Metadata)

def marshalExportEnvelope : Except Text Text :=
  let sorted := canonicalItems S items
  match (Json.arr (sorted.map itemJson)).unsupported? with
  | some value => .error ("marshal export items: json: unsupported value: " ++ value)
  | none => .ok (envelopeOf sha sorted metadata).encode

def itemsFingerprint (items : List Item) : Except Text Text :=
  let rows := Json.arr ((canonicalItems S items).map itemJson)
  match rows.unsupported? with
  | some value =>
    .error ("marshal items for fingerprint: json: " ++ ("unsupported value: " ++ value : Text))
  | none => .ok (sha.hex rows.encode)

def envelopeBytes : Text :=
  (envelopeOf sha (canonicalItems S items) metadata).encode

def envelopeSize : Int :=
  Text.byteLen (envelopeBytes S sha items metadata)

----
-- Parts
----

/- A row that cannot be written is found here. -/
def stableItems (items : List Item) : Except Text (List Item) :=
  match items.findSome? fun item => (itemJson item).unsupported? with
  | some value => .error ("marshal item sort key: json: unsupported value: " ++ value)
  | none => .ok (S.sortBy wireText items)

def measureMeta (metadata : Metadata) (count : Nat) : Metadata :=
  { metadata with partIndex := count, partTotal := count }

def partitionItemGroups (sorted : List Item) (metadata : Metadata)
    (maxBytes : Int) : Except Text (List (List Item)) :=
  if maxBytes ≤ 0 ∨ envelopeSize S sha sorted metadata ≤ maxBytes then .ok [sorted]
  else if sorted.isEmpty then .ok [[]]
  else
    groupItems
      (fun candidate =>
        envelopeSize S sha candidate (measureMeta metadata sorted.length) ≤ maxBytes)
      (tooLarge maxBytes) [] sorted

def partOf (metadata : Metadata) (index total : Nat) (group : List Item) : EnvelopePartition :=
  let payload := envelopeOf sha (canonicalItems S group) (partMetadata metadata index total)
  { index
    total
    itemCount := group.length
    checksum := textMember "checksum" payload
    envelope := payload }

/- The rows passed `stableItems`, so each part can be written. -/
def partitionEnvelopes (maxBytes : Int) : Except Text (List EnvelopePartition) := do
  let sorted ← stableItems S items
  let groups ← partitionItemGroups S sha sorted metadata maxBytes
  pure (groups.mapIdx fun i group => partOf S sha metadata (i + 1) groups.length group)

def partitionsChecksum (parts : List EnvelopePartition) : Text :=
  sha.hex (parts.flatMap fun part => part.checksum ++ ['\n'])

end Sorting

----
-- Rows That Look The Same
----

section SameWire

variable {S : Sorter Text} {sha : Digest} {xs ys : List Item}

/- Two lists that no reader of the wire can tell apart. -/
def SameWire (xs ys : List Item) : Prop := xs.map wireText = ys.map wireText

variable (hSame : SameWire xs ys)

include hSame in
theorem SameWire.length_eq : xs.length = ys.length := by simpa using congrArg List.length hSame

include hSame in
theorem SameWire.keys : xs.map itemCanonicalKey = ys.map itemCanonicalKey := by
  unfold SameWire at hSame
  rw [← List.forall₂_eq_eq_eq, List.forall₂_map_left_iff, List.forall₂_map_right_iff] at hSame ⊢
  exact hSame.imp fun a b hEq => itemCanonicalKey_of_wireText hEq

include hSame in
theorem SameWire.canonicalItems : SameWire (canonicalItems S xs) (canonicalItems S ys) :=
  S.map_sortBy_congr _ _ hSame.keys hSame

include hSame in
theorem SameWire.envelopeBytes (metadata : Metadata) :
    envelopeBytes S sha xs metadata = envelopeBytes S sha ys metadata :=
  encode_envelopeOf_congr sha hSame.canonicalItems metadata

include hSame in
theorem SameWire.append {xs' ys' : List Item} (hSame' : SameWire xs' ys') :
    SameWire (xs ++ xs') (ys ++ ys') := by
  unfold SameWire at hSame hSame' ⊢
  rw [List.map_append, List.map_append, hSame, hSame']

include hSame in
theorem SameWire.envelopeSize (metadata : Metadata) :
    envelopeSize S sha xs metadata = envelopeSize S sha ys metadata := by
  unfold Wire.envelopeSize
  rw [hSame.envelopeBytes]

/- Lists of groups that look the same. -/
def SameGroups (gs hs : List (List Item)) : Prop := List.Forall₂ SameWire gs hs

/- Results that look the same, or an error twice. -/
def SameResult (r r' : Except Text (List (List Item))) : Prop :=
  match r, r' with
  | .ok gs, .ok hs => SameGroups gs hs
  | .error _, .error _ => True
  | _, _ => False

theorem groupItems_congr {fits : List Item → Bool}
    (hFits : ∀ xs ys, SameWire xs ys → fits xs = fits ys)
    (err : Text) {current current' rest rest' : List Item}
    (hCurrent : SameWire current current') (hRest : SameWire rest rest') :
    SameResult (groupItems fits err current rest) (groupItems fits err current' rest') := by
  induction rest generalizing current current' rest' with
  | nil =>
    cases rest' with
    | cons y ys => cases hRest
    | nil =>
      cases current with
      | nil =>
        cases current' with
        | nil => exact List.Forall₂.nil
        | cons y ys => cases hCurrent
      | cons x xs =>
        cases current' with
        | nil => cases hCurrent
        | cons y ys => exact List.Forall₂.cons hCurrent .nil
  | cons item rest ih =>
    cases rest' with
    | nil => cases hRest
    | cons item' rest' =>
      unfold SameWire at hRest
      rw [List.map_cons, List.map_cons, List.cons.injEq] at hRest
      have hItem : SameWire [item] [item'] := by
        unfold SameWire
        rw [List.map_singleton, List.map_singleton, hRest.1]
      have hMore := hCurrent.append hItem
      have hEmpty : current.isEmpty = current'.isEmpty := by
        have hLength := hCurrent.length_eq
        cases current <;> cases current' <;> simp_all
      unfold groupItems
      rw [hFits _ _ hMore, hEmpty, hFits _ _ hItem]
      split_ifs
      · exact ih hMore hRest.2
      · trivial
      · trivial
      · have hTail := ih hItem hRest.2
        unfold SameResult at hTail
        split at hTail
        · rename_i gs hs hGs hHs
          rw [hGs, hHs]
          exact List.Forall₂.cons hCurrent hTail
        · rename_i err₁ err₂ hErr₁ hErr₂
          rw [hErr₁, hErr₂]
          trivial
        · exact hTail.elim

include hSame in
theorem partitionItemGroups_congr (metadata : Metadata) (maxBytes : Int) :
    SameResult (partitionItemGroups S sha xs metadata maxBytes)
      (partitionItemGroups S sha ys metadata maxBytes) := by
  have hEmpty : xs.isEmpty = ys.isEmpty := by
    have hLength := hSame.length_eq
    cases xs <;> cases ys <;> simp_all
  unfold partitionItemGroups
  rw [hSame.envelopeSize, hEmpty, hSame.length_eq]
  split_ifs
  · exact List.Forall₂.cons hSame .nil
  · exact List.Forall₂.cons rfl .nil
  · refine groupItems_congr ?_ _ rfl hSame
    intro as bs hAs
    rw [hAs.envelopeSize]

----
-- One Content In Two Orders
----

/- What a consumer of a part gets. -/
def view (part : EnvelopePartition) : Nat × Nat × Nat × Text × Text :=
  (part.index, part.total, part.itemCount, part.checksum, part.envelope.encode)

include hSame in
theorem view_partOf_congr (metadata : Metadata) (index total : Nat) :
    view (partOf S sha metadata index total xs) = view (partOf S sha metadata index total ys) := by
  have hRows : Json.encode (.arr ((canonicalItems S xs).map itemJson)) =
      Json.encode (.arr ((canonicalItems S ys).map itemJson)) := by
    refine Json.encode_arr_congr ?_
    rw [List.map_map, List.map_map]
    exact hSame.canonicalItems
  unfold view partOf
  dsimp only
  rw [checksum_envelopeOf, checksum_envelopeOf, hRows, hSame.length_eq]
  exact congrArg _ (congrArg _ (congrArg _ (congrArg _ (hSame.envelopeBytes _))))

/- Groups that look the same make parts that look the same. -/
theorem view_parts_congr {gs hs : List (List Item)} (hSame : SameGroups gs hs)
    (metadata : Metadata) (total n : Nat) :
    (gs.mapIdx fun i group => partOf S sha metadata (n + i + 1) total group).map view =
      (hs.mapIdx fun i group =>
        partOf S sha metadata (n + i + 1) total group).map
          view := by
  induction hSame generalizing n with
  | nil => rfl
  | cons hHead hTail ih =>
    rw [List.mapIdx_cons, List.mapIdx_cons, List.map_cons, List.map_cons, view_partOf_congr hHead]
    refine congrArg _ ?_
    have hShift := ih (n + 1)
    simp only [Nat.add_right_comm n 1, ← Nat.add_assoc] at hShift ⊢
    exact hShift

theorem stableItems_of_perm (hPerm : xs.Perm ys) :
    match stableItems S xs, stableItems S ys with
    | .ok sorted, .ok sorted' => SameWire sorted sorted'
    | .error _, .error _ => True
    | _, _ => False := by
  have hNone : xs.findSome? (fun item => (itemJson item).unsupported?) = none ↔
      ys.findSome? (fun item => (itemJson item).unsupported?) = none := by
    rw [List.findSome?_eq_none_iff, List.findSome?_eq_none_iff]
    exact forall_congr' fun item => by rw [hPerm.mem_iff]
  unfold stableItems
  cases hXs : xs.findSome? (fun item => (itemJson item).unsupported?) with
  | none =>
    rw [hNone.mp hXs]
    exact S.map_key_sortBy_of_perm wireText hPerm
  | some value =>
    cases hYs : ys.findSome? (fun item => (itemJson item).unsupported?) with
    | none =>
      rw [hNone.mpr hYs] at hXs
      cases hXs
    | some value' => trivial

/- The checksum of the parts is read off their checksums. -/
theorem partitionsChecksum_eq (parts : List EnvelopePartition) : partitionsChecksum sha parts =
      sha.hex ((parts.map view).flatMap fun v => v.2.2.2.1 ++ ['\n']) := by
  rw [List.flatMap_map]
  rfl

theorem views_of_perm (hPerm : xs.Perm ys) (metadata : Metadata) (maxBytes : Int) :
    (partitionEnvelopes S sha xs metadata maxBytes).toOption.map (List.map view) =
      (partitionEnvelopes S sha ys metadata maxBytes).toOption.map (List.map view) := by
  have hStable := stableItems_of_perm (S := S) hPerm
  unfold partitionEnvelopes
  split at hStable
  · rename_i sorted sorted' hXs hYs
    rw [hXs, hYs]
    dsimp only [bind, Except.bind]
    have hGroups : SameResult (partitionItemGroups S sha sorted metadata maxBytes)
        (partitionItemGroups S sha sorted' metadata maxBytes) :=
      partitionItemGroups_congr hStable metadata maxBytes
    unfold SameResult at hGroups
    split at hGroups
    · rename_i gs hs hGs hHs
      rw [hGs, hHs]
      have hLength : gs.length = hs.length := List.Forall₂.length_eq hGroups
      have hParts : (gs.mapIdx fun i group =>
            partOf S sha metadata (0 + i + 1) hs.length group).map view =
          (hs.mapIdx fun i group => partOf S sha metadata (0 + i + 1) hs.length group).map view :=
        view_parts_congr hGroups metadata hs.length 0
      simp only [Nat.zero_add] at hParts
      dsimp only [pure, Except.pure, Except.toOption, Option.map_some]
      rw [hLength, hParts]
    · rename_i err err' hErr hErr'
      rw [hErr, hErr']
      rfl
    · exact hGroups.elim
  · rename_i err err' hXs hYs
    rw [hXs, hYs]
    rfl
  · exact hStable.elim

/-
  The parts of a content do not depend on the order in which the rows are listed, and neither does
  the envelope when no two rows have one key.
-/
theorem parts_and_envelope_of_perm (S : Sorter Text) (sha : Digest) (metadata : Metadata)
    (maxBytes : Int) (items items' : List Item) (hPerm : items.Perm items') :
    ((partitionEnvelopes S sha items metadata maxBytes).toOption.map (List.map view) =
        (partitionEnvelopes S sha items' metadata maxBytes).toOption.map (List.map view)) ∧
      ((partitionEnvelopes S sha items metadata maxBytes).toOption.map (partitionsChecksum sha) =
        (partitionEnvelopes S sha items' metadata maxBytes).toOption.map (partitionsChecksum sha)) ∧
      ((items.map itemCanonicalKey).Nodup → marshalExportEnvelope S sha items metadata =
          marshalExportEnvelope S sha items' metadata) := by
  have hViews : (partitionEnvelopes S sha items metadata maxBytes).toOption.map (List.map view) =
      (partitionEnvelopes S sha items' metadata maxBytes).toOption.map (List.map view) :=
    views_of_perm hPerm metadata maxBytes
  refine ⟨hViews, ?_, fun hNodup => ?_⟩
  · have hRead : ∀ result : Option (List EnvelopePartition),
        result.map (partitionsChecksum sha) =
          (result.map (List.map view)).map fun views =>
            sha.hex (views.flatMap fun v => v.2.2.2.1 ++ ['\n']) := by
      intro result
      rw [Option.map_map]
      exact congrArg (Option.map · result) (funext partitionsChecksum_eq)
    rw [hRead, hRead, hViews]
  · unfold marshalExportEnvelope canonicalItems
    rw [S.sortBy_eq_of_perm itemCanonicalKey hPerm hNodup]

/- Two rows of one object and one target. -/
def twin (phase : Text) : Item where
  targetNamespace := ("n" : Text)
  targetName := ("t" : Text)
  namespace_ := ("n" : Text)
  name := ("a" : Text)
  group := []
  version := ("v1" : Text)
  kind := ("Pod" : Text)
  uid := ("1" : Text)
  attributes := GoMap.ofList [(("phase" : Text), .str phase)]

/- Their parts are the same in both orders. -/
theorem twins_in_two_orders : itemCanonicalKey (twin "x") = itemCanonicalKey (twin "y") ∧
    (partitionEnvelopes Sorter.stable paddedDigest [twin "x", twin "y"] ⟨1, [], [], 0, 0⟩
        400).toOption.map (List.map view) =
      (partitionEnvelopes Sorter.stable paddedDigest [twin "y", twin "x"] ⟨1, [], [], 0, 0⟩
        400).toOption.map (List.map view) :=
  ⟨rfl, (parts_and_envelope_of_perm _ _ _ _ _ _ (List.Perm.swap _ _ _)).1⟩

end SameWire

----
-- The Stable Sorter
----

section Stable

variable (sha : Digest) (items : List Item) (metadata : Metadata)

theorem canonicalItems_stable : canonicalItems Sorter.stable items = Export.canonicalItems items :=
  Sorter.sortBy_stable itemCanonicalKey items

theorem envelopeOf_stable : envelopeOf sha (canonicalItems Sorter.stable items) metadata =
      envelopeJson sha items metadata := by
  rw [canonicalItems_stable]
  rfl

theorem itemsFingerprint_stable :
    itemsFingerprint Sorter.stable sha items = tryItemsFingerprint sha items := by
  unfold itemsFingerprint tryItemsFingerprint marshalItems
  dsimp only
  rw [canonicalItems_stable]
  cases (Json.arr ((Export.canonicalItems items).map itemJson)).unsupported? with
  | none => rfl
  | some value => rfl

theorem partitionItemGroups_stable (sorted : List Item) (maxBytes : Int) :
    partitionItemGroups Sorter.stable sha sorted metadata maxBytes =
      Export.partitionItemGroups sha sorted metadata maxBytes := by
  have hSize : ∀ items metadata,
      envelopeSize Sorter.stable sha items metadata = Export.envelopeSize sha items metadata := by
    intro items metadata
    unfold envelopeSize envelopeBytes Export.envelopeSize marshalEnvelope
    rw [envelopeOf_stable]
  unfold partitionItemGroups Export.partitionItemGroups
  simp only [hSize]
  rfl

theorem partOf_stable (index total : Nat) : partOf Sorter.stable sha metadata index total items =
      Export.partOf sha metadata index total items := by
  unfold partOf Export.partOf
  dsimp only
  rw [checksum_envelopeOf, envelopeOf_stable, canonicalItems_stable]
  rfl

/- Rows that can be written make the parts of `Kollect.Export.Partition`. -/
theorem partitionEnvelopes_stable (maxBytes : Int)
    (hWritable : ∀ item ∈ items, (itemJson item).unsupported? = none) :
    partitionEnvelopes Sorter.stable sha items metadata maxBytes =
      Export.partitionEnvelopes sha items metadata maxBytes := by
  have hSorted : stableItems Sorter.stable items = .ok (Export.stableItems items) := by
    unfold stableItems
    rw [List.findSome?_eq_none_iff.mpr hWritable]
    exact congrArg _ (Sorter.sortBy_stable wireText items)
  unfold partitionEnvelopes Export.partitionEnvelopes
  rw [hSorted]
  dsimp only [bind, Except.bind]
  rw [partitionItemGroups_stable]
  cases Export.partitionItemGroups sha (Export.stableItems items) metadata maxBytes with
  | error err => rfl
  | ok groups =>
    simp only [partOf_stable]
    rfl

end Stable

end Wire
end Export
end Kollect
