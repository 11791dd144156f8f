import Kollect.Collect.Store
import Kollect.Foundation.JsonText

/-
  The export envelope of a list of rows (`collect/export_envelope.go`, `export/envelope.go`).

  The rows of an envelope are sorted by their identity. What an envelope is decoded to are these
  rows; the wire form is needed for its length and as the content of a JSON document.
-/

namespace Kollect
namespace Export

open Collect

----
-- Rows On The Wire
----

/- A map is written with its keys in order. -/
def attributesJson (attributes : GoMap Text Json) : Json :=
  .obj ((Text.sort attributes.keys).filterMap fun key =>
    (attributes.lookup key).map fun value => (key, value))

/- A member that is left out when it is empty. -/
def omitEmpty (key value : Text) : List (Text × Json) :=
  if value = [] then [] else [(key, .str value)]

def omitZero (key : Text) (n : Int) : List (Text × Json) := if n = 0 then [] else [(key, .int n)]

def member (key value : Text) : Text × Json := (key, .str value)

def itemJson (item : Item) : Json :=
  .obj ([member "targetNamespace" item.targetNamespace, member "targetName" item.targetName,
      member "namespace" item.namespace_, member "name" item.name] ++
      omitEmpty "group" item.group ++ [member "version" item.version, member "kind" item.kind,
        member "uid" item.uid, ("attributes".toList, attributesJson item.attributes)])

def itemCanonicalKey (item : Item) : Text :=
  ['\x00'].intercalate [item.targetNamespace, item.targetName, item.namespace_,
      item.name, item.uid, item.group, item.version, item.kind]

def canonicalItems (items : List Item) : List Item := Text.sortBy itemCanonicalKey items

----
-- Envelopes
----

/- The part fields are zero in a standalone envelope. -/
structure Metadata where
  generation : Int
  cluster : Text
  exportedAt : Text
  partIndex : Nat
  partTotal : Nat

def exportSchemaVersion : Text := "kollect.dev/v1alpha1"

variable (sha : Digest) (items : List Item)

/- The digest of the canonical rows. -/
def itemsFingerprint : Text :=
  sha.hex (Json.encode (.arr ((canonicalItems items).map itemJson)))

structure ExportEnvelope where
  schemaVersion : Text
  checksum : Text
  generation : Int
  partIndex : Int
  partTotal : Int
  itemCount : Int
  exportedAt : Text
  cluster : Text
  items : List Item

def ExportEnvelope.json (envelope : ExportEnvelope) : Json :=
  .obj ([member "schemaVersion" envelope.schemaVersion, member "checksum" envelope.checksum] ++
      omitZero "generation" envelope.generation ++ omitZero "partIndex" envelope.partIndex ++
      omitZero "partTotal" envelope.partTotal ++
      [("itemCount".toList, .int envelope.itemCount), member "exportedAt" envelope.exportedAt] ++
      omitEmpty "cluster" envelope.cluster ++
      [("items".toList, .arr (envelope.items.map itemJson))])

/- The envelope of rows in order. -/
def Metadata.envelope (metadata : Metadata) (sha : Digest) (sorted : List Item) :
    ExportEnvelope where
  schemaVersion := exportSchemaVersion
  checksum := sha.hex (Json.encode (.arr (sorted.map itemJson)))
  generation := metadata.generation
  partIndex := metadata.partIndex
  partTotal := metadata.partTotal
  itemCount := sorted.length
  exportedAt := metadata.exportedAt
  cluster := metadata.cluster
  items := sorted

def envelopeJson (metadata : Metadata) : Json :=
  (metadata.envelope sha (canonicalItems items)).json

def marshalEnvelope (metadata : Metadata) : Text :=
  Json.encode (envelopeJson sha items metadata)

/- `json.Marshal` of the canonical rows. -/
def marshalItems (items : List Item) : Except Text Text :=
  let document := Json.arr ((canonicalItems items).map itemJson)
  match document.unsupported? with
  | some value => .error ("json: unsupported value: " ++ value)
  | none => .ok document.encode

/- `ItemsFingerprint` with its error. -/
def tryItemsFingerprint : Except Text Text :=
  match marshalItems items with
  | .error err => .error ("marshal items for fingerprint: " ++ err)
  | .ok itemsJSON => .ok (sha.hex itemsJSON)

/- A fingerprint that could be computed is not empty. -/
theorem ne_nil_of_tryItemsFingerprint {sha : Digest} {items : List Item} {fingerprint : Text}
    (hOk : tryItemsFingerprint sha items = .ok fingerprint) : fingerprint ≠ [] := by
  unfold tryItemsFingerprint at hOk
  split at hOk
  · cases hOk
  · rename_i json _
    rw [← Except.ok.inj hOk]
    exact List.ne_nil_of_length_pos (by rw [sha.length_hex]; decide)

----
-- Reading Envelopes
----

inductive PayloadError where
  | unsupportedVersion (version : Text)
  | undecodable
deriving DecidableEq, Repr

section Reading

/- The text of the float64 nearest to a number. -/
variable (float : Int → Text)

mutual

/- A value as it is decoded: every number is a float64. -/
def decoded : Json → Json
  | .int n => .float (float n)
  | .arr xs => .arr (decodedElements xs)
  | .obj fields => .obj (decodedMembers fields)
  | value => value

def decodedElements : List Json → List Json
  | [] => []
  | x :: xs => decoded x :: decodedElements xs

def decodedMembers : List (Text × Json) → List (Text × Json)
  | [] => []
  | (key, x) :: fields => (key, decoded x) :: decodedMembers fields

end

/- A text of an object; a missing one is empty. -/
def textMember (key : Text) (document : Json) : Text :=
  match document.field? key with
  | some (.str s) => s
  | _ => []

/- A number of an object; a missing one is zero. -/
def intMember (key : Text) (document : Json) : Int :=
  match document.field? key with
  | some (.int n) => n
  | _ => 0

def itemOfJson (document : Json) : Item where
  targetNamespace := textMember "targetNamespace" document
  targetName := textMember "targetName" document
  namespace_ := textMember "namespace" document
  name := textMember "name" document
  group := textMember "group" document
  version := textMember "version" document
  kind := textMember "kind" document
  uid := textMember "uid" document
  attributes :=
    match document.field? "attributes" with
    | some (.obj fields) => GoMap.ofList (decodedMembers float fields)
    | _ => ∅

/- The elements of an array; null is an empty one. -/
def itemsOfJson : Json → Except PayloadError (List Item)
  | .arr xs => .ok (xs.map (itemOfJson float))
  | .null => .ok []
  | _ => .error .undecodable

/- `ItemsFromExportPayload` of a document: a versioned envelope, or a bare array. -/
def itemsFromPayload (document : Json) : Except PayloadError (List Item) :=
  let version := textMember "schemaVersion" document
  if version = [] then itemsOfJson float document
  else if version ≠ exportSchemaVersion then .error (.unsupportedVersion version)
  else itemsOfJson float ((document.field? "items").getD .null)

end Reading

end Export
end Kollect
