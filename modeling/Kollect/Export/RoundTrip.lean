import Kollect.Export.Wire
import Kollect.Foundation.Rfc3339

/-
  Reading back what was exported (`collect/export_envelope.go`, `export/envelope_meta.go`).

  An envelope is written from its rows and its metadata, and read as a document. `unmarshal` is the
  decoder of documents; all that is asked of it is that it reads back the document that was written.

  Key theorems include:
    * `itemOfJson_itemJson`
    * `envelope_round_trip`
-/

namespace Kollect
namespace Export

open Collect

----
-- Writing And Reading
----

/- The part fields are zero in a standalone envelope. -/
structure ExportMetadata where
  generation : Int
  cluster : Text
  exportedAt : Instant
  partIndex : Int
  partTotal : Int

/- The envelope of rows in order; a zero time stands for now. -/
def ExportMetadata.envelope (metadata : ExportMetadata) (sha : Digest) (now : Instant)
    (sorted : List Item) : ExportEnvelope where
  schemaVersion := exportSchemaVersion
  checksum := sha.hex (Json.encode (.arr (sorted.map itemJson)))
  generation := metadata.generation
  partIndex := metadata.partIndex
  partTotal := metadata.partTotal
  itemCount := sorted.length
  exportedAt := (if metadata.exportedAt = Instant.zero then now else metadata.exportedAt).format
  cluster := metadata.cluster
  items := sorted

def marshalExportEnvelope (S : Sorter Text) (sha : Digest) (now : Instant) (items : List Item)
    (metadata : ExportMetadata) : Except Text Text :=
  let sorted := Wire.canonicalItems S items
  match (Json.arr (sorted.map itemJson)).unsupported? with
  | some value => .error ("marshal export items: json: unsupported value: " ++ value)
  | none => .ok (metadata.envelope sha now sorted).json.encode

/- The time is written as a text; beyond that it is the envelope of `Wire`. -/
theorem marshalExportEnvelope_eq_wire (S : Sorter Text) (sha : Digest) (now at_ : Instant)
    (items : List Item) (generation : Int) (cluster : Text) (partIndex partTotal : Nat) :
    marshalExportEnvelope S sha now items ⟨generation, cluster, at_, partIndex, partTotal⟩ =
      Wire.marshalExportEnvelope S sha items ⟨generation, cluster,
        (if at_ = Instant.zero then now else at_).format, partIndex, partTotal⟩ := by
  rfl

structure EnvelopeMeta where
  generation : Int
  cluster : Text
  itemCount : Int
  checksum : Text
  exportedAt : Instant
  partIndex : Int
  partTotal : Int

section Reading

variable (float : Int → Text) (unmarshal : Text → Option Json)

/- A versioned envelope or a bare array. -/
def itemsFromExportPayload (payload : Text) : Except PayloadError (List Item) :=
  if payload = [] then .ok []
  else if payload = "[]" ∨ payload = "null" then .ok []
  else
    match unmarshal payload with
    | none => .error .undecodable
    | some document => itemsFromPayload float document

def envelopeMetaFromPayload (payload : Text) : EnvelopeMeta :=
  match unmarshal payload with
  | none => ⟨0, [], 0, [], Instant.zero, 0, 0⟩
  | some document =>
    { generation := intMember "generation" document
      cluster := textMember "cluster" document
      itemCount := intMember "itemCount" document
      checksum := textMember "checksum" document
      exportedAt :=
        let text := textMember "exportedAt" document
        if text = [] then Instant.zero
        else (Instant.parse text).getD Instant.zero
      partIndex := intMember "partIndex" document
      partTotal := intMember "partTotal" document }

end Reading

----
-- Values That Survive
----

mutual

/- A value as a decoder makes it: numbers are finite floats. -/
def Shaped : Json → Prop
  | .int _ => False
  | .float f => f ∉ Json.nonFinite
  | .arr xs => ShapedElements xs
  | .obj fields => ShapedMembers fields
  | _ => True

def ShapedElements : List Json → Prop
  | [] => True
  | x :: xs => Shaped x ∧ ShapedElements xs

def ShapedMembers : List (Text × Json) → Prop
  | [] => True
  | (_, x) :: fields => Shaped x ∧ ShapedMembers fields

end

mutual

theorem decoded_of_shaped (float : Int → Text) :
    ∀ value : Json, Shaped value → decoded float value = value
  | .null, _ => rfl
  | .bool _, _ => rfl
  | .int _, hShaped => hShaped.elim
  | .float _, _ => rfl
  | .str _, _ => rfl
  | .arr xs, hShaped => by rw [decoded, decodedElements_of_shaped float xs hShaped]
  | .obj fields, hShaped => by rw [decoded, decodedMembers_of_shaped float fields hShaped]

theorem decodedElements_of_shaped (float : Int → Text) :
    ∀ xs : List Json, ShapedElements xs → decodedElements float xs = xs
  | [], _ => rfl
  | x :: xs, hShaped => by
    rw [decodedElements, decoded_of_shaped float x hShaped.1,
      decodedElements_of_shaped float xs hShaped.2]

theorem decodedMembers_of_shaped (float : Int → Text) :
    ∀ fields : List (Text × Json), ShapedMembers fields → decodedMembers float fields = fields
  | [], _ => rfl
  | (key, x) :: fields, hShaped => by
    rw [decodedMembers, decoded_of_shaped float x hShaped.1,
      decodedMembers_of_shaped float fields hShaped.2]

end

mutual

theorem unsupported?_of_shaped : ∀ value : Json, Shaped value → value.unsupported? = none
  | .null, _ => rfl
  | .bool _, _ => rfl
  | .int _, _ => rfl
  | .float _, hShaped => if_neg hShaped
  | .str _, _ => rfl
  | .arr xs, hShaped => by
    rw [Json.unsupported?]
    exact unsupportedElement?_of_shaped xs hShaped
  | .obj fields, hShaped => by
    rw [Json.unsupported?]
    exact unsupportedMember?_of_shaped fields hShaped

theorem unsupportedElement?_of_shaped :
    ∀ xs : List Json, ShapedElements xs → Json.unsupportedElement? xs = none
  | [], _ => rfl
  | x :: xs, hShaped => by
    rw [Json.unsupportedElement?, unsupported?_of_shaped x hShaped.1,
      unsupportedElement?_of_shaped xs hShaped.2]
    rfl

theorem unsupportedMember?_of_shaped :
    ∀ fields : List (Text × Json), ShapedMembers fields → Json.unsupportedMember? fields = none
  | [], _ => rfl
  | (key, x) :: fields, hShaped => by
    rw [Json.unsupportedMember?, unsupported?_of_shaped x hShaped.1,
      unsupportedMember?_of_shaped fields hShaped.2]
    rfl

end

----
-- Attributes
----

section Attributes

variable (attributes : GoMap Text Json)

/- The members of an attribute map, keys in order. -/
def attributeMembers : List (Text × Json) :=
  (Text.sort attributes.keys).filterMap fun key =>
    (attributes.lookup key).map fun value => (key, value)

theorem attributesJson_eq : attributesJson attributes = .obj (attributeMembers attributes) := rfl

/- A map from keys with their values has these values. -/
theorem lookup_foldl_insert (value? : Text → Option Json) (keys : List Text)
    (m : GoMap Text Json) (k : Text) :
    ((keys.filterMap fun key =>
        (value? key).map fun value => (key, value)).foldl
        (fun m entry => m.insert entry.1 entry.2) m).lookup k =
      if k ∈ keys then (value? k).or (m.lookup k)
      else m.lookup k := by
  induction keys generalizing m with
  | nil => rfl
  | cons key keys ih =>
    rw [List.filterMap_cons]
    cases hValue : value? key with
    | none =>
      dsimp only [Option.map_none]
      rw [ih]
      by_cases hKey : k = key
      · subst hKey
        simp [hValue]
      · simp [hKey]
    | some value =>
      dsimp only [Option.map_some]
      rw [List.foldl_cons, ih, GoMap.lookup_insert_ite]
      by_cases hKey : k = key
      · subst hKey
        simp [hValue]
      · simp [hKey]

theorem lookup_attributeMembers (k : Text) :
    (GoMap.ofList (attributeMembers attributes)).lookup k = attributes.lookup k := by
  unfold GoMap.ofList attributeMembers
  rw [lookup_foldl_insert]
  split_ifs with hKey
  · exact Option.or_none
  · rw [Text.mem_sort, ← AList.mem_keys] at hKey
    exact (AList.lookup_eq_none.mpr hKey).symm

theorem shaped_attributeMembers
    (hShaped : ∀ key value, attributes.lookup key = some value → Shaped value) :
    ShapedMembers (attributeMembers attributes) := by
  have hAll : ∀ fields : List (Text × Json),
      (∀ field ∈ fields, Shaped field.2) → ShapedMembers fields := by
    intro fields hEach
    induction fields with
    | nil => trivial
    | cons field fields ih =>
      rw [List.forall_mem_cons] at hEach
      exact ⟨hEach.1, ih hEach.2⟩
  refine hAll _ fun field hField => ?_
  rcases List.mem_filterMap.mp hField with ⟨key, -, hKey⟩
  rcases Option.map_eq_some_iff.mp hKey with ⟨value, hValue, rfl⟩
  exact hShaped key value hValue

theorem attributeMembers_congr {attributes attributes' : GoMap Text Json}
    (hSame : ∀ k, attributes.lookup k = attributes'.lookup k) :
    attributeMembers attributes = attributeMembers attributes' := by
  have hKeys : attributes.keys.Perm attributes'.keys := by
    rw [List.perm_ext_iff_of_nodup attributes.keys_nodup attributes'.keys_nodup]
    intro k
    rw [← AList.mem_keys, ← AList.mem_keys, ← AList.lookup_isSome, ← AList.lookup_isSome, hSame]
  unfold attributeMembers
  rw [Text.sort_eq_of_perm hKeys]
  exact List.filterMap_congr fun k _ => by rw [hSame]

end Attributes

----
-- Rows
----

/- A row whose attributes a decoder could have made. -/
def ShapedItem (item : Item) : Prop :=
  ∀ key value, item.attributes.lookup key = some value → Shaped value

/- One row; its map may list its entries in another order. -/
structure SameItem (a b : Item) : Prop extends SameIdentity a b where
  attributes : ∀ k, a.attributes.lookup k = b.attributes.lookup k

theorem SameItem.itemJson {a b : Item} (hSame : SameItem a b) : itemJson a = itemJson b := by
  unfold Export.itemJson
  rw [attributesJson_eq, attributesJson_eq, attributeMembers_congr hSame.attributes,
    hSame.targetNamespace, hSame.targetName, hSame.namespace_,
    hSame.name, hSame.uid, hSame.group, hSame.version, hSame.kind]

theorem field?_itemJson (item : Item) (k : Text) : (itemJson item).field? k =
      ([member "targetNamespace" item.targetNamespace, member "targetName" item.targetName,
        member "namespace" item.namespace_, member "name" item.name].lookup k).or
      ((if k = "group" ∧ item.group ≠ [] then some (.str item.group) else none : Option Json).or
      ([member "version" item.version, member "kind" item.kind, member "uid" item.uid,
        ("attributes".toList, attributesJson item.attributes)].lookup k)) := by
  unfold itemJson Json.field?
  simp only [List.lookup_append, lookup_omitEmpty, Option.or_assoc]

/- What is read from the text of a row is its identity. -/
theorem sameIdentity_itemOfJson (float : Int → Text) (item : Item) :
    SameIdentity (itemOfJson float (itemJson item)) item := by
  constructor
  all_goals
    unfold itemOfJson textMember
    simp only [field?_itemJson]
  case group =>
    by_cases hEmpty : item.group = []
    · simp [member, lookup_cons_ite, hEmpty]
    · simp [member, lookup_cons_ite, hEmpty]
  all_goals simp [member, lookup_cons_ite]

theorem itemOfJson_itemJson (float : Int → Text) {item : Item} (hShaped : ShapedItem item) :
    SameItem (itemOfJson float (itemJson item)) item := by
  have hField : (itemJson item).field? "attributes" =
      some (.obj (attributeMembers item.attributes)) := by
    rw [field?_itemJson, ← attributesJson_eq]
    simp [member, lookup_cons_ite]
  refine ⟨sameIdentity_itemOfJson float item, fun k => ?_⟩
  unfold itemOfJson
  rw [hField]
  dsimp only
  rw [decodedMembers_of_shaped float _ (shaped_attributeMembers _ hShaped)]
  exact lookup_attributeMembers item.attributes k

theorem unsupported?_itemJson {item : Item} (hShaped : ShapedItem item) :
    (itemJson item).unsupported? = none :=
  unsupported?_itemJson_of_attributes fun name value hValue =>
    unsupported?_of_shaped value (hShaped name value hValue)

----
-- The Round Trip
----

theorem itemsFromPayload_json (float : Int → Text) {envelope : ExportEnvelope}
    (hSchema : envelope.schemaVersion = exportSchemaVersion)
    (hShaped : ∀ item ∈ envelope.items, ShapedItem item) :
    ∃ decoded, itemsFromPayload float envelope.json = .ok decoded ∧
        List.Forall₂ SameItem decoded envelope.items := by
  have hVersion : textMember "schemaVersion" envelope.json = exportSchemaVersion :=
    (textMember_json envelope).1.trans hSchema
  have hNonempty : exportSchemaVersion ≠ [] := by decide
  refine ⟨(envelope.items.map itemJson).map (itemOfJson float), ?_, ?_⟩
  · unfold itemsFromPayload
    rw [hVersion, if_neg hNonempty, if_neg (not_not.mpr rfl), items_json]
    rfl
  · rw [List.map_map, List.forall₂_map_left_iff, List.forall₂_same]
    exact fun item hMem => itemOfJson_itemJson float (hShaped item hMem)

theorem unsupported?_rows {items : List Item} (hShaped : ∀ item ∈ items, ShapedItem item) :
    (Json.arr (items.map itemJson)).unsupported? = none := by
  refine Json.unsupported?_arr.mpr fun document hDocument => ?_
  rcases List.mem_map.mp hDocument with ⟨item, hMem, rfl⟩
  exact unsupported?_itemJson (hShaped item hMem)

theorem itemsFingerprint_of_same {S : Sorter Text} (sha : Digest) {decoded sorted : List Item}
    (hShaped : ∀ item ∈ sorted, ShapedItem item)
    (hSorted : (sorted.map itemCanonicalKey).Pairwise fun a b => a ≤ b)
    (hSame : List.Forall₂ SameItem decoded sorted) : Wire.itemsFingerprint S sha decoded =
      .ok (sha.hex (Json.encode (.arr (sorted.map itemJson)))) := by
  have hKeys : decoded.map itemCanonicalKey = sorted.map itemCanonicalKey := by
    rw [← List.forall₂_eq_eq_eq, List.forall₂_map_left_iff, List.forall₂_map_right_iff]
    exact hSame.imp fun _ _ hItem => hItem.itemCanonicalKey
  have hJson : decoded.map itemJson = sorted.map itemJson := by
    rw [← List.forall₂_eq_eq_eq, List.forall₂_map_left_iff, List.forall₂_map_right_iff]
    exact hSame.imp fun _ _ hItem => hItem.itemJson
  -- the rows were sorted, and sorting leaves them so
  have hFixed : Wire.canonicalItems S decoded = decoded := S.sortBy_of_pairwise _ (hKeys ▸ hSorted)
  unfold Wire.itemsFingerprint
  dsimp only
  rw [hFixed, hJson, unsupported?_rows hShaped]

theorem itemsFromExportPayload_json (float : Int → Text) {unmarshal : Text → Option Json}
    {envelope : ExportEnvelope} (hExact : unmarshal envelope.json.encode = some envelope.json) :
    itemsFromExportPayload float unmarshal envelope.json.encode =
      itemsFromPayload float envelope.json := by
  have hBrace : envelope.json.encode.head? = some '\x7b' := by
    unfold ExportEnvelope.json
    rw [Json.encode]
    rfl
  have hNe : ∀ text : Text, text.head? ≠ some '\x7b' → envelope.json.encode ≠ text :=
    fun text hHead hEq => hHead (hEq ▸ hBrace)
  unfold itemsFromExportPayload
  rw [if_neg (hNe [] (by decide)), if_neg (not_or.mpr ⟨hNe _ (by decide), hNe _ (by decide)⟩),
    hExact]

theorem parse_exportedAt {metadata : ExportMetadata} (sha : Digest) (now : Instant)
    (sorted : List Item) (hTime : metadata.exportedAt ≠ Instant.zero) :
    Instant.parse (metadata.envelope sha now sorted).exportedAt = some metadata.exportedAt := by
  unfold ExportMetadata.envelope
  rw [if_neg hTime, Instant.parse_format]

/-
  Rows and metadata that were exported are read back from the payload, whatever the sort does to
  rows with one key.
-/
theorem envelope_round_trip (S : Sorter Text) (sha : Digest) (float : Int → Text)
    (unmarshal : Text → Option Json) (items : List Item) (metadata : ExportMetadata) (now : Instant)
    (hShaped : ∀ item ∈ items, ShapedItem item) (hTime : metadata.exportedAt ≠ Instant.zero)
    (hExact : unmarshal (metadata.envelope sha now (Wire.canonicalItems S items)).json.encode =
        some (metadata.envelope sha now (Wire.canonicalItems S items)).json) :
    ∃ payload decoded, marshalExportEnvelope S sha now items metadata = .ok payload ∧
      itemsFromExportPayload float unmarshal payload = .ok decoded ∧
      List.Forall₂ SameItem decoded (Wire.canonicalItems S items) ∧
      (envelopeMetaFromPayload unmarshal payload).generation = metadata.generation ∧
      (envelopeMetaFromPayload unmarshal payload).cluster = metadata.cluster ∧
      (envelopeMetaFromPayload unmarshal payload).partIndex = metadata.partIndex ∧
      (envelopeMetaFromPayload unmarshal payload).partTotal = metadata.partTotal ∧
      (envelopeMetaFromPayload unmarshal payload).itemCount = items.length ∧
      (envelopeMetaFromPayload unmarshal payload).exportedAt = metadata.exportedAt ∧
      Wire.itemsFingerprint S sha decoded =
        .ok (envelopeMetaFromPayload unmarshal payload).checksum := by
  have hRows : ∀ item ∈ Wire.canonicalItems S items, ShapedItem item :=
    fun item hMem => hShaped item ((S.mem_sortBy _).mp hMem)
  have hCount : (Wire.canonicalItems S items).length = items.length := S.length_sortBy _ _
  have hOrder := S.pairwise_sortBy itemCanonicalKey items
  have hParsed := parse_exportedAt sha now (Wire.canonicalItems S items) hTime
  have hMarshal : marshalExportEnvelope S sha now items metadata =
      .ok (metadata.envelope sha now (Wire.canonicalItems S items)).json.encode := by
    unfold marshalExportEnvelope
    dsimp only
    rw [unsupported?_rows hRows]
  generalize hEnvelope : metadata.envelope sha now (Wire.canonicalItems S items) = envelope at *
  have hItems : envelope.items = Wire.canonicalItems S items := hEnvelope ▸ rfl
  have hNonempty : envelope.exportedAt ≠ [] := by
    intro hEmpty
    rw [hEmpty] at hParsed
    cases hParsed
  rcases itemsFromPayload_json float (hEnvelope ▸ rfl)
    (hItems ▸ hRows) with ⟨decoded, hDecoded, hSame⟩
  rcases intMember_json envelope with ⟨hGen, hIndex, hTotal, hLength⟩
  rcases textMember_json envelope with ⟨_, hChecksum, hCluster, hAt⟩
  rw [hItems] at hSame
  refine ⟨envelope.json.encode, decoded, hMarshal, ?_, hSame, ?_⟩
  · rw [itemsFromExportPayload_json float hExact, hDecoded]
  · unfold envelopeMetaFromPayload
    rw [hExact]
    dsimp only
    rw [hGen, hCluster, hIndex, hTotal, hLength, hAt, if_neg hNonempty, hParsed, hChecksum,
      itemsFingerprint_of_same sha hRows hOrder hSame, ← hCount, ← hEnvelope]
    exact ⟨rfl, rfl, rfl, rfl, rfl, rfl, rfl⟩

/- A leap day, half a second before noon. -/
def leapDay : Instant := ⟨2024, 2, 29, 11, 59, 59, 500000000, by decide⟩

def scanned (payload : Text) : Option Json := (Json.scan payload).map Prod.fst

theorem shapedItem_twin (phase : Text) : ShapedItem (Wire.twin phase) := by
  intro key value hValue
  have hMem := AList.mem_lookup_iff.mp hValue
  cases List.mem_singleton.mp hMem
  trivial

theorem twins_are_read_back :
    ∃ payload decoded, marshalExportEnvelope Sorter.stable paddedDigest leapDay
          [Wire.twin "x", Wire.twin "y"] ⟨7, "c", leapDay, 1, 2⟩ = .ok payload ∧
        itemsFromExportPayload (fun _ => []) scanned payload = .ok decoded ∧ decoded.length = 2 ∧
        (envelopeMetaFromPayload scanned payload).exportedAt = leapDay := by
  rcases envelope_round_trip Sorter.stable paddedDigest
    (fun _ => []) scanned [Wire.twin "x", Wire.twin "y"]
    ⟨7, "c", leapDay, 1, 2⟩ leapDay
    (by
      intro item hMem
      rcases List.mem_pair.mp hMem with rfl | rfl
      · exact shapedItem_twin "x"
      · exact shapedItem_twin "y")
    (by decide)
    (by decide +kernel)
    with ⟨payload, decoded, hBytes, hRead, hSame, hMeta⟩
  exact ⟨payload, decoded, hBytes, hRead, hSame.length_eq, hMeta.2.2.2.2.2.1⟩

end Export
end Kollect
