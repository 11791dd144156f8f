import Kollect.Collect.Extractor
import Kollect.Collect.Prune

/-
  Admission of profiles (`internal/validation/profile.go`).

  Paths are compiled or parsed, names are compared, and the paths of a profile for Secrets are
  scanned for the word that names their data. No value is looked at.

  Key theorems include:
    * `names_of_validateProfile`
    * `exportKey_of_validateProfile`
-/

namespace Kollect
namespace Validation

open Collect

----
-- Profiles And Errors
----

structure MetricSpec where
  name : Text
  path : Text
  labels : List Text

/- A profile with the fields that only admission and export read. -/
structure FullProfile extends KollectProfile where
  export_ : Option ExportSpec
  metrics : List MetricSpec

inductive Problem where
  | required (detail : Text)
  | duplicate (value : Text)
  | invalid (value detail : Text)
  | invalidPath (value : Text) (err : ExtractError)
  | forbidden (detail : Text)
  | tooMany (actual max : Nat)
deriving DecidableEq, Repr

structure FieldError where
  path : Text
  problem : Problem
deriving DecidableEq, Repr

def child (path name : Text) : Text := path ++ '.' :: name

variable (path : Text)

def index (i : Nat) : Text := path ++ '[' :: Text.ofInt i ++ [']']

----
-- Attributes And Metrics
----

/- A name has to be there, and to be new. -/
def nameErrors (seen : List Text) (name : Text) : List FieldError :=
  if name = [] then [⟨child path "name", .required "name is required"⟩]
  else if name ∈ seen then [⟨child path "name", .duplicate name⟩]
  else []

def pathMissing : FieldError := ⟨child path "path", .required "path is required"⟩

def validateAttributes (ev : Evaluators) : Nat → List Text → List AttributeSpec → List FieldError
  | _, _, [] => []
  | i, seen, attr :: attrs =>
    let idxPath := index "spec.attributes" i
    nameErrors idxPath seen attr.name ++
      (if attr.path = [] then [pathMissing idxPath]
      else
        match ev.validateAttributePath attr.path with
        | .ok () => []
        | .error err => [⟨child idxPath "path", .invalidPath attr.path err⟩]) ++
      validateAttributes ev (i + 1) (attr.name :: seen) attrs

def maxProfileMetricLabels : Nat := 5

def labelErrors (attrNames : List Text) (labels : List Text) : List FieldError :=
  (labels.mapIdx fun j label =>
    if label = [] then [⟨index path j, .required "label key is required"⟩]
    else if label ∈ attrNames then []
    else
      [⟨index path j, .invalid label
        "label must reference an attribute name from spec.attributes"⟩]).flatten

def validateProfileMetrics (attrNames : List Text) :
    Nat → List Text → List MetricSpec → List FieldError
  | _, _, [] => []
  | i, seen, metric :: metrics =>
    let idxPath := index "spec.metrics" i
    let labelsPath := child idxPath "labels"
    nameErrors idxPath seen metric.name ++
      (if metric.path = [] then [pathMissing idxPath]
      else
        (if metric.path ∈ attrNames then []
        else
          [⟨child idxPath "path", .invalid metric.path
            "path must reference an attribute name from spec.attributes"⟩]) ++
        (if maxProfileMetricLabels < metric.labels.length then
          [⟨labelsPath, .tooMany metric.labels.length maxProfileMetricLabels⟩]
        else []) ++
        labelErrors labelsPath attrNames metric.labels) ++
      validateProfileMetrics attrNames (i + 1) (metric.name :: seen) metrics

def validateProfileSpec (ev : Evaluators) (profile : FullProfile) : List FieldError :=
  let attrs := profile.spec.attributes
  let attrNames := (attrs.map AttributeSpec.name).filter fun name => name ≠ []
  (if profile.spec.targetGVK.version = [] then
    [⟨"spec.targetGVK.version", .required "version is required"⟩]
  else []) ++
  (if profile.spec.targetGVK.kind = [] then [⟨"spec.targetGVK.kind", .required "kind is required"⟩]
  else []) ++
  validateAttributes ev 0 [] attrs ++
  validateProfileMetrics attrNames 0 [] profile.metrics

----
-- Secrets
----

def isSecretTargetGVK (gvk : GroupVersionKind) : Bool :=
  gvk.kind = ("Secret" : Text) && (gvk.group = [] || gvk.group = ("core" : Text))

def annotated (annotations : Labels) (key : Text) : Bool :=
  annotations.lookup key = some ("true" : Text)

def allowSecretExtractionAnnotation : Text := "kollect.dev/allow-secret-extraction"

def allowFullResourceExportAnnotation : Text := "kollect.dev/allow-full-resource-export"

def helmReleasePathRequiresSecretOptIn : Bool :=
  helmReleasePathPrefix.isPrefixOf (Text.trimSpace path) &&
    deniedBy "config" (helmReleaseField path)

def celSeparators : List Char := ['.', '[', ']', '(', ')', ' ', '\t']

def splitCELPath (expr : Text) : List Text :=
  let rest := Text.trimStart (Text.trimStart (Text.trimSpace expr) "object") ['.']
  (rest.splitOnP fun c => c ∈ celSeparators).filter fun word => word ≠ []

def pathTargetsSecretData : Bool :=
  let path := Text.trimSpace path
  if helmReleasePathPrefix.isPrefixOf path then false
  else if celPrefix.isPrefixOf path then
    (splitCELPath (Text.trimStart path celPrefix)).any fun segment => Text.equalFold segment "data"
  else
    let rest :=
      if ("$." : Text).isPrefixOf path then path.drop 2
      else Text.trimStart path ['$']
    ((Text.trimStart rest ['.']).splitOn '.').any fun segment =>
      Text.equalFold ((Text.trimSpace segment).takeWhile fun c => c ≠ '[' && c ≠ '(') "data"

def pathRequiresSecretExtractionOptIn : Bool :=
  if helmReleasePathPrefix.isPrefixOf (Text.trimSpace path) then
    helmReleasePathRequiresSecretOptIn path
  else pathTargetsSecretData path

def validateSecretDataAccess (profile : FullProfile) : List FieldError :=
  if ¬ isSecretTargetGVK profile.spec.targetGVK ∨
      annotated profile.annotations allowSecretExtractionAnnotation then []
  else
    (profile.spec.attributes.mapIdx fun i attr =>
      if pathRequiresSecretExtractionOptIn attr.path then
        [⟨child (index "spec.attributes" i) "path", .forbidden
          "Secret.data paths require annotation \"kollect.dev/allow-secret-extraction\": \"true\""⟩]
      else []).flatten

----
-- Export
----

def pointerEscapes : Text → Bool
  | [] => true
  | '~' :: '0' :: rest => pointerEscapes rest
  | '~' :: '1' :: rest => pointerEscapes rest
  | '~' :: _ => false
  | _ :: rest => pointerEscapes rest

/- What is wrong with a pointer, if anything is. -/
def validateRFC6901Pointer (pointer : Text) : Option Text :=
  match Text.trimSpace pointer with
  | [] => some "empty JSON pointer"
  | '/' :: rest =>
    if pointerEscapes rest then none
    else some "invalid escape: '~' must be followed by '0' or '1'"
  | _ => some "JSON pointer must start with '/'"

def validateFullResourceExportSecret (profile : FullProfile) : List FieldError :=
  if ExportSpec.resourceExportEnabled profile.export_ ∧ isSecretTargetGVK profile.spec.targetGVK ∧
      ¬ annotated profile.annotations allowFullResourceExportAnnotation then
    [⟨"spec.export.mode", .forbidden
      "Resource export of Secret requires annotation \"kollect.dev/allow-full-resource-export\": \"true\""⟩]
  else []

def validateExport (profile : FullProfile) : List FieldError :=
  match profile.export_ with
  | none => []
  | some spec =>
    let attrs := profile.spec.attributes
    (if spec.mode ≠ .resource ∧ attrs = [] then
      [⟨"spec.attributes", .required "spec.attributes is required when export.mode is Attributes"⟩]
    else []) ++
    (if spec.mode = .resource ∧ spec.attributeKey ∈ attrs.map AttributeSpec.name then
      [⟨"spec.export.as", .duplicate spec.attributeKey⟩]
    else []) ++
    (match spec.prune with
    | none => []
    | some prune =>
      (prune.jsonPointers.mapIdx fun i ptr =>
        match validateRFC6901Pointer ptr with
        | none => []
        | some detail =>
          [⟨index "spec.export.prune.jsonPointers" i, .invalid ptr detail⟩]).flatten) ++
    validateFullResourceExportSecret profile

def validateProfile (ev : Evaluators) (profile : FullProfile) : List FieldError :=
  validateProfileSpec ev profile ++ validateSecretDataAccess profile ++ validateExport profile

----
-- Names Of An Admitted Profile
----

variable {ev : Evaluators}

theorem names_of_validateAttributes {attrs : List AttributeSpec} {i : Nat} {seen : List Text}
    (hValid : validateAttributes ev i seen attrs = []) :
    (attrs.map AttributeSpec.name).Nodup ∧ ∀ name ∈ attrs.map AttributeSpec.name, name ∉ seen := by
  induction attrs generalizing i seen with
  | nil => simp
  | cons attr attrs ih =>
    rw [validateAttributes] at hValid
    simp only [List.append_eq_nil_iff] at hValid
    rcases hValid with ⟨⟨hName, -⟩, hRest⟩
    rcases ih hRest with ⟨hNodup, hNew⟩
    have hHead : attr.name ∉ seen := by
      intro hSeen
      unfold nameErrors at hName
      split_ifs at hName
    constructor
    · rw [List.map_cons, List.nodup_cons]
      refine ⟨fun hLater => ?_, hNodup⟩
      exact hNew attr.name hLater List.mem_cons_self
    · rw [List.map_cons, List.forall_mem_cons]
      refine ⟨hHead, fun name hMem hSeen => ?_⟩
      exact hNew name hMem (List.mem_cons_of_mem _ hSeen)

variable {profile : FullProfile}

/- No two attributes of an admitted profile share a name. -/
theorem names_of_validateProfile (hValid : validateProfile ev profile = []) :
    (profile.spec.attributes.map AttributeSpec.name).Nodup := by
  unfold validateProfile validateProfileSpec at hValid
  simp only [List.append_eq_nil_iff] at hValid
  exact (names_of_validateAttributes hValid.1.1.1.2).1

/- The embedded copy has a name that no attribute has. -/
theorem exportKey_of_validateProfile (hValid : validateProfile ev profile = []) {spec : ExportSpec}
    (hSpec : profile.export_ = some spec) (hMode : spec.mode = .resource) :
    spec.attributeKey ∉ profile.spec.attributes.map AttributeSpec.name := by
  intro hMem
  unfold validateProfile validateExport at hValid
  rw [hSpec] at hValid
  simp [hMode, hMem] at hValid

end Validation
end Kollect
