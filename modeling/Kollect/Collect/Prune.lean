import Kollect.Api
import Kollect.Collect.Scrub
import Kollect.Foundation.JsonPointer
import Kollect.Foundation.JsonWire

/-
  The copy of an object that a row embeds (`internal/collect/prune.go`).

  Sections are selected and paths are taken out of a copy of the object. The copy is scrubbed, and
  stamped with the generation of the object.

  Key theorems include:
    * `supported_pruneObject`
-/

namespace Kollect

----
-- The Export Block
----

inductive ExportMode where
  | attributes
  | resource
deriving DecidableEq, Repr

inductive ExportInclude where
  | metadataOnly
  | specOnly
  | statusOnly
  | specAndStatus
  | all
deriving DecidableEq, Repr

structure PruneSpec where
  defaults : Option Bool
  jsonPointers : List Text
  jsonPaths : List Text
  scrubKeys : List Text

structure ExportSpec where
  mode : ExportMode
  as_ : Text
  include_ : Option ExportInclude
  dedupeIdentity : Option Bool
  prune : Option PruneSpec

def defaultExportAs : Text := "resource"

namespace ExportSpec

def resourceExportEnabled : Option ExportSpec → Bool
  | none => false
  | some spec => spec.mode = .resource

def attributeKey (spec : ExportSpec) : Text := if spec.as_ = [] then defaultExportAs else spec.as_

def includeOrDefault (spec : ExportSpec) : ExportInclude := spec.include_.getD .specAndStatus

def dedupeIdentityEnabled (spec : ExportSpec) : Bool := spec.dedupeIdentity.getD true

def defaultsEnabled (spec : ExportSpec) : Bool := (spec.prune.bind PruneSpec.defaults).getD true

end ExportSpec

namespace Collect

----
-- Taking Nodes Out
----

/- `strconv.Atoi`. Beyond int64 it fails, and here it gives a number past the end of any slice. -/
def atoi? (s : Text) : Option Int :=
  let number (digits : Text) : Option Nat :=
    if digits ≠ [] ∧ digits.all Char.isDigit then
      some (digits.foldl (fun n c => 10 * n + (c.toNat - '0'.toNat)) 0)
    else none
  match s with
  | '-' :: digits => (number digits).map fun n => - (n : Int)
  | '+' :: digits => (number digits).map fun n => (n : Int)
  | digits => (number digits).map fun n => (n : Int)

/- The index a token names in a slice of some length. -/
def sliceIndex? (token : Text) (length : Nat) : Option Nat :=
  match atoi? token with
  | none => none
  | some idx =>
    if idx < 0 ∨ (length : Int) ≤ idx then none
    else some idx.toNat

/- The leaf is taken out of a map; in a slice it is nulled. -/
def removeByTokens : List Text → Json → Json
  | [], node => node
  | token :: tokens, .obj fields =>
    if tokens = [] then .obj (fields.filter fun field => field.1 ≠ token)
    else .obj (Json.editMember token (removeByTokens tokens) fields)
  | token :: tokens, .arr xs =>
    match sliceIndex? token xs.length with
    | none => .arr xs
    | some i =>
      if tokens = [] then .arr (xs.set i .null)
      else .arr (xs.modify i (removeByTokens tokens))
  | _ :: _, node => node

def unescapeJSONPointerToken (token : Text) : Text :=
  Text.replaceAll [(("~0" : Text), ("~" : Text))]
    (Text.replaceAll [(("~1" : Text), ("/" : Text))] token)

def removeJSONPointer (root : Json) (pointer : Text) : Json :=
  match Text.trimSpace pointer with
  | ['/'] => root
  | '/' :: rest => removeByTokens ((rest.splitOn '/').map unescapeJSONPointerToken) root
  | _ => root

def isQuoteMark (c : Char) : Bool := c = '"' || c.toNat = 39

/-
  The loop over a path. Every round takes a character off, so the length of the path is enough fuel.
-/
def jsonPathTokensFrom : Nat → Text → List Text → Option (List Text)
  | 0, _, tokens => some tokens
  | _, [], tokens => some tokens
  | fuel + 1, '.' :: path, tokens => jsonPathTokensFrom fuel path tokens
  | fuel + 1, '[' :: path, tokens =>
    if ']' ∈ path then
      let inner := Text.trimSpace (path.takeWhile fun c => c ≠ ']')
      if inner = ['*'] ∨ inner.head? = some '?' then none
      else
        jsonPathTokensFrom fuel ((path.dropWhile fun c => c ≠ ']').drop 1)
          (tokens ++ [Text.trimFunc isQuoteMark inner])
    else none
  | fuel + 1, path, tokens =>
    let word := path.takeWhile fun c => c ≠ '.' && c ≠ '['
    let seg := Text.trimSpace word
    if seg = ['*'] then none
    else
      jsonPathTokensFrom fuel (path.drop word.length) (if seg = [] then tokens else tokens ++ [seg])

def jsonPathTokens (path : Text) : Option (List Text) :=
  let trimmed := Text.trimStart (Text.trimSpace path) ['$']
  jsonPathTokensFrom trimmed.length trimmed []

def removeJSONPath (root : Json) (path : Text) : Json :=
  match jsonPathTokens path with
  | none => root
  | some tokens => removeByTokens tokens root

----
-- The Embedded Copy
----

def builtinPrunePointers : List Text :=
  ["/metadata/managedFields", "/metadata/resourceVersion", "/metadata/generation",
    "/metadata/annotations/kubectl.kubernetes.io~1last-applied-configuration",
    "/metadata/annotations/argocd.argoproj.io~1tracking-id"]

def includedSections : ExportInclude → List Text
  | .metadataOnly => ["apiVersion", "kind", "metadata"]
  | .specOnly => ["apiVersion", "kind", "spec"]
  | .statusOnly => ["apiVersion", "kind", "status"]
  | _ => ["apiVersion", "kind", "spec", "status"]

def selectIncludeSections (root : List (Text × Json)) : ExportInclude → List (Text × Json)
  | .all => root
  | sections => root.filter fun field => field.1 ∈ includedSections sections

/- A deletion below a map that is not there does nothing. -/
def dropEnvelopeIdentity (root : Json) : Json :=
  [("name" : Text), "namespace", "uid"].foldl
    (fun root key => removeByTokens ["metadata", key] root) root

/- The copy before it is scrubbed. -/
def pruneObject (spec : ExportSpec) (object : List (Text × Json)) : Json :=
  let root := Json.obj (selectIncludeSections object spec.includeOrDefault)
  let root :=
    if spec.dedupeIdentityEnabled then dropEnvelopeIdentity root
    else root
  let root :=
    if spec.defaultsEnabled then builtinPrunePointers.foldl removeJSONPointer root
    else root
  match spec.prune with
  | none => root
  | some prune =>
    prune.jsonPaths.foldl removeJSONPath (prune.jsonPointers.foldl removeJSONPointer root)

/- `m[key] = value` in a map of Go values. -/
def setMember (key : Text) (value : GoValue)
    (members : List (Text × GoValue)) : List (Text × GoValue) :=
  members.filter (fun entry => entry.1 ≠ key) ++ [(key, value)]

def annotationCollectedGeneration : Text := "kollect.dev/collectedGeneration"

/- `GetGeneration`: zero if the field is no number. -/
def generationOf (object : List (Text × Json)) : Int :=
  match Json.nested? ["metadata", "generation"] (.obj object) with
  | .ok (some (.int n)) => n
  | _ => 0

def stampCollectedGeneration (members : List (Text × GoValue))
    (object : List (Text × Json)) : List (Text × GoValue) :=
  match members.lookup ("metadata" : Text) with
  | some (.map metadata) =>
    let annotations :=
      match metadata.lookup ("annotations" : Text) with
      | some (.map annotations) => annotations
      | _ => []
    let stamp : GoValue := .str (Text.ofInt (generationOf object))
    setMember "metadata" (.map (setMember "annotations"
        (.map (setMember annotationCollectedGeneration stamp annotations)) metadata)) members
  | _ => members

def pruneResource (scrubber : Scrubber) (spec : ExportSpec)
    (object : List (Text × Json)) : GoValue :=
  match scrubber.scrub (GoValue.ofJson (pruneObject spec object)) with
  | .map members => .map (stampCollectedGeneration members object)
  | root => root

----
-- Supported Values
----

theorem supported_removeByTokens
    (tokens : List Text) (node : Json) (hNode : node.unsupported? = none) :
    (removeByTokens tokens node).unsupported? = none := by
  induction tokens generalizing node with
  | nil => exact hNode
  | cons token tokens ih =>
    cases node with
    | obj fields =>
      rw [removeByTokens]
      rw [Json.unsupported?_obj] at hNode
      split_ifs
      · rw [Json.unsupported?_obj]
        exact fun field hField => hNode field (List.mem_of_mem_filter hField)
      · rw [Json.unsupported?_obj]
        intro field hField
        rcases Json.mem_editMember hField with hOld | ⟨old, hOld, hEq⟩
        · exact hNode field hOld
        · rw [hEq]
          exact ih old.2 (hNode old hOld)
    | arr xs =>
      rw [removeByTokens]
      split
      · exact hNode
      · rename_i i hIndex
        rw [Json.unsupported?_arr] at hNode
        split_ifs
        · rw [Json.unsupported?_arr]
          intro x hX
          rcases List.mem_or_eq_of_mem_set hX with hOld | rfl
          · exact hNode x hOld
          · rfl
        · rw [Json.unsupported?_arr]
          intro x hX
          rcases List.mem_iff_getElem?.mp hX with ⟨j, hAt⟩
          rw [List.getElem?_modify] at hAt
          rcases Option.map_eq_some_iff.mp hAt with ⟨y, hY, rfl⟩
          have hOld := hNode y (List.mem_of_getElem? hY)
          split_ifs
          · exact ih y hOld
          · exact hOld
    | _ => exact hNode

theorem supported_removeJSONPointer
    (root : Json) (pointer : Text) (hRoot : root.unsupported? = none) :
    (removeJSONPointer root pointer).unsupported? = none := by
  unfold removeJSONPointer
  split
  · exact hRoot
  · exact supported_removeByTokens _ root hRoot
  · exact hRoot

theorem supported_removeJSONPath (root : Json) (path : Text) (hRoot : root.unsupported? = none) :
    (removeJSONPath root path).unsupported? = none := by
  unfold removeJSONPath
  split
  · exact hRoot
  · exact supported_removeByTokens _ root hRoot

theorem supported_foldl {change : Json → Text → Json}
    (hChange : ∀ root text, root.unsupported? = none → (change root text).unsupported? = none)
    (texts : List Text) (root : Json) (hRoot : root.unsupported? = none) :
    (texts.foldl change root).unsupported? = none := by
  induction texts generalizing root with
  | nil => exact hRoot
  | cons text texts ih => exact ih _ (hChange root text hRoot)

variable {object : List (Text × Json)}

theorem supported_selectIncludeSections (sections : ExportInclude)
    (hObject : (Json.obj object).unsupported? = none) :
    (Json.obj (selectIncludeSections object sections)).unsupported? = none := by
  rw [Json.unsupported?_obj] at hObject ⊢
  intro field hField
  apply hObject field
  cases sections with
  | all => exact hField
  | _ => exact List.mem_of_mem_filter hField

theorem supported_pruneObject (spec : ExportSpec)
    (hObject : (Json.obj object).unsupported? = none) :
    (pruneObject spec object).unsupported? = none := by
  have hSelected := supported_selectIncludeSections spec.includeOrDefault hObject
  have hDeduped : (if spec.dedupeIdentityEnabled then
        dropEnvelopeIdentity (.obj (selectIncludeSections object spec.includeOrDefault))
      else .obj (selectIncludeSections object spec.includeOrDefault)).unsupported? = none := by
    split_ifs
    · exact supported_foldl (fun root key => supported_removeByTokens _ root) _ _ hSelected
    · exact hSelected
  unfold pruneObject
  dsimp only
  generalize (if spec.dedupeIdentityEnabled then _ else _) = deduped at hDeduped ⊢
  have hDefaults : (if spec.defaultsEnabled then
        builtinPrunePointers.foldl removeJSONPointer deduped
      else deduped).unsupported? = none := by
    split_ifs
    · exact supported_foldl supported_removeJSONPointer _ _ hDeduped
    · exact hDeduped
  split
  · exact hDefaults
  · apply supported_foldl supported_removeJSONPath
    exact supported_foldl supported_removeJSONPointer _ _ hDefaults

end Collect
end Kollect
