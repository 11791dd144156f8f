import Kollect.Api
import Kollect.Foundation.JsonTree

/-
  Fields of a decoded Helm release (`collect/helmdecode.go`).

  A path `helm:release.<field>` names a field of the release that a `helm.sh/v1` Secret holds. Some
  subtrees of a release are not exportable. The policy compares the requested field with them and
  with what is below them; a field above them is not looked at.

  Key theorems include:
    * `conceals_iff`
    * `chart_discloses_values`
-/

namespace Kollect
namespace Collect

----
-- The Policy
----

def helmReleasePathPrefix : Text := "helm:release."

/- Names of a profile, and the paths they stand for. -/
def helmReleaseFieldAliases : List (Text × Text) :=
  [("releaseName", "name"), ("chartName", "chart.metadata.name"),
    ("chartVersion", "chart.metadata.version"), ("appVersion", "chart.metadata.appVersion"),
    ("revision", "version"), ("status", "info.status"), ("lastDeployed", "info.last_deployed"),
    ("namespace", "namespace"), ("config", "config")]

def helmReleaseDeniedPaths : List Text :=
  ["manifest", "hooks", "chart.templates", "chart.files", "chart.values", "chart.raw"]

inductive HelmError where
  | missingPrefix
  | emptyField
  | notExportable (field : Text)
  | nilObject
  | noData
  | dataNotMap
  | noRelease
  | base64 (message : Text)
  | releaseNotText
  | gunzip (message : Text)
  | malformedPayload
  | notObject (path : Text)
deriving DecidableEq, Repr

def resolveHelmReleaseField (field : Text) : Text :=
  (helmReleaseFieldAliases.lookup field).getD field

/- The field, and what is below it, is not exportable. -/
def deniedBy (denied field : Text) : Bool := field == denied || (denied ++ ['.']).isPrefixOf field

def validateHelmReleaseField (field : Text) : Except HelmError Unit :=
  if field = [] then .error .emptyField
  else if helmReleaseDeniedPaths.any (deniedBy · field) then .error (.notExportable field)
  else .ok ()

/- What the path names, with the alias resolved. -/
def helmReleaseField (path : Text) : Text :=
  resolveHelmReleaseField (Text.trimStart (Text.trimSpace path) helmReleasePathPrefix)

def validateHelmReleaseAttributePath (path : Text) : Except HelmError Unit :=
  let trimmed := Text.trimSpace path
  if ¬ helmReleasePathPrefix.isPrefixOf trimmed then .error .missingPrefix
  else if Text.trimStart trimmed helmReleasePathPrefix = [] then .error .emptyField
  else validateHelmReleaseField (helmReleaseField path)

----
-- Decoding
----

abbrev Bytes := List UInt8

/-
  The decoders of the standard library. `unmarshal` reads a JSON object into a map; null gives the
  map without entries.
-/
structure HelmCodec where
  base64Text : Text → Except Text Bytes
  base64 : Bytes → Option Bytes
  gunzip : Bytes → Except Text Bytes
  unmarshal : Bytes → Option (List (Text × Json))

def magicGzip : Bytes := [0x1f, 0x8b, 0x08]

namespace HelmCodec

variable (codec : HelmCodec)

def secretReleaseData (obj : List (Text × Json)) : Except HelmError Bytes :=
  match obj.lookup ("data" : Text) with
  | none => .error .noData
  | some .null => .error .noData
  | some (.obj data) =>
    match data.lookup ("release" : Text) with
    | none => .error .noRelease
    | some (.str encoded) => (codec.base64Text encoded).mapError .base64
    | some _ => .error .releaseNotText
  | some _ => .error .dataNotMap

/- Base64 and gzip are taken off where they are found. -/
def decodeHelmReleasePayload (payload : Bytes) : Except HelmError (List (Text × Json)) := do
  let decoded := (codec.base64 payload).getD payload
  let plain ←
    if 3 < decoded.length ∧ decoded.take 3 = magicGzip then (codec.gunzip decoded).mapError .gunzip
    else .ok decoded
  match codec.unmarshal plain with
  | none => .error .malformedPayload
  | some release => .ok release

def decodeHelmReleaseSecret (obj : Option Unstructured) :
    Except HelmError (List (Text × Json)) := do
  match obj with
  | none => .error .nilObject
  | some obj =>
    let encoded ← codec.secretReleaseData obj.object
    codec.decodeHelmReleasePayload encoded

end HelmCodec

def nestedFieldFromRelease (release : List (Text × Json))
    (path : Text) : Except HelmError (Option Json) :=
  match Json.nested? (path.splitOn '.') (.obj release) with
  | .error _ => .error (.notObject path)
  | .ok found => .ok found

/- The value of the field; nothing if it is not there. -/
def extractHelmReleaseField (codec : HelmCodec) (obj : Option Unstructured)
    (path : Text) : Except HelmError (Option Json) := do
  let field := Text.trimStart (Text.trimSpace path) helmReleasePathPrefix
  if field = [] then .error .emptyField
  else
    let resolved := resolveHelmReleaseField field
    validateHelmReleaseField resolved
    let release ← codec.decodeHelmReleaseSecret obj
    nestedFieldFromRelease release resolved

----
-- What A Field Discloses
----

/- The release without its subtrees that are not exportable. -/
def redactRelease (release : List (Text × Json)) : Json :=
  Json.withoutAll (helmReleaseDeniedPaths.map (List.splitOn '.')) (.obj release)

/- What is extracted under the path does not depend on the subtrees that are not exportable. -/
def Conceals (path : Text) : Prop :=
  ∀ codec obj obj' release release', codec.decodeHelmReleaseSecret obj = .ok release →
    codec.decodeHelmReleaseSecret obj' = .ok release' →
    redactRelease release = redactRelease release' →
      extractHelmReleaseField codec obj path = extractHelmReleaseField codec obj' path

/- The words of a text before and after a dot. -/
theorem intercalate_append {front rest : List Text} (hFront : front ≠ []) (hRest : rest ≠ []) :
    ['.'].intercalate (front ++ rest) =
      ['.'].intercalate front ++ '.' :: ['.'].intercalate rest := by
  induction front with
  | nil => exact absurd rfl hFront
  | cons word front ih =>
    cases front with
    | nil =>
      cases rest with
      | nil => exact absurd rfl hRest
      | cons next rest =>
        rw [List.singleton_append, List.intercalate_cons_cons,
          List.intercalate_singleton, List.append_assoc]
        rfl
    | cons word' front =>
      rw [List.cons_append, List.cons_append, List.intercalate_cons_cons,
        List.intercalate_cons_cons, ← List.cons_append, ih (List.cons_ne_nil _ _),
        List.append_assoc, List.append_assoc, List.append_assoc]

theorem splitOn_ne_nil (s : Text) : s.splitOn '.' ≠ [] := List.splitOnP_ne_nil _ s

theorem eq_of_splitOn {s : Text} {words : List Text} (hWords : s.splitOn '.' = words) :
    s = ['.'].intercalate words := by
  rw [← hWords, List.intercalate_splitOn]

variable {denied field : Text}

/- A denied path whose words begin those of a field denies it. -/
theorem deniedBy_of_begins (hPrefix : denied.splitOn '.' <+: field.splitOn '.') :
    deniedBy denied field = true := by
  rcases hPrefix with ⟨rest, hRest⟩
  have hField := eq_of_splitOn hRest.symm
  unfold deniedBy
  cases rest with
  | nil =>
    rw [List.append_nil, List.intercalate_splitOn] at hField
    rw [hField, beq_self_eq_true, Bool.true_or]
  | cons word rest =>
    rw [intercalate_append (splitOn_ne_nil denied) (List.cons_ne_nil _ _), List.intercalate_splitOn]
      at hField
    rw [Bool.or_eq_true, List.isPrefixOf_iff_prefix, hField]
    refine .inr ⟨['.'].intercalate (word :: rest), ?_⟩
    rw [List.append_assoc]
    rfl

/- The words of a denied path: one, or two below the chart. -/
theorem splitOn_denied (hDenied : denied ∈ helmReleaseDeniedPaths) :
    denied.splitOn '.' = [denied] ∨ ∃ word, denied.splitOn '.' = [("chart" : Text), word] := by
  unfold helmReleaseDeniedPaths at hDenied
  simp only [List.mem_cons, List.not_mem_nil, or_false] at hDenied
  rcases hDenied with h | h | h | h | h | h
  · subst h
    exact .inl (by decide)
  · subst h
    exact .inl (by decide)
  · subst h
    exact .inr ⟨"templates", by decide⟩
  · subst h
    exact .inr ⟨"files", by decide⟩
  · subst h
    exact .inr ⟨"values", by decide⟩
  · subst h
    exact .inr ⟨"raw", by decide⟩

theorem eq_chart_of_prefix (hDenied : denied ∈ helmReleaseDeniedPaths)
    (hPrefix : field.splitOn '.' <+: denied.splitOn '.') :
    field = denied ∨ field = ("chart" : Text) := by
  rcases hPrefix with ⟨rest, hRest⟩
  have hWords := splitOn_ne_nil field
  have hField : ['.'].intercalate (field.splitOn '.') = field := List.intercalate_splitOn '.'
  cases hSplit : field.splitOn '.' with
  | nil => exact absurd hSplit hWords
  | cons word words =>
    rw [hSplit] at hRest hField
    cases rest with
    | nil =>
      -- the same words
      rw [List.append_nil] at hRest
      rw [hRest, List.intercalate_splitOn] at hField
      exact .inl hField.symm
    | cons next rest =>
      rcases splitOn_denied hDenied with hOne | ⟨last, hTwo⟩
      · rw [hOne] at hRest
        simp at hRest
      · rw [hTwo] at hRest
        cases words with
        | nil =>
          rw [List.intercalate_singleton] at hField
          simp only [List.cons_append, List.nil_append, List.cons.injEq] at hRest
          exact .inr (hField.symm.trans hRest.1)
        | cons word' words => simp at hRest

theorem validateHelmReleaseField_eq_ok : validateHelmReleaseField field = .ok () ↔
      field ≠ [] ∧ ∀ denied ∈ helmReleaseDeniedPaths, deniedBy denied field = false := by
  unfold validateHelmReleaseField
  by_cases hEmpty : field = []
  · simp [hEmpty]
  · rw [if_neg hEmpty]
    cases hAny : helmReleaseDeniedPaths.any (deniedBy · field) with
    | true =>
      rw [List.any_eq_true] at hAny
      rcases hAny with ⟨denied, hMem, hDenied⟩
      simp only [if_true, reduceCtorEq, false_iff, not_and]
      intro _ hNone
      rw [hNone denied hMem] at hDenied
      cases hDenied
    | false =>
      rw [List.any_eq_false] at hAny
      simpa [hEmpty] using hAny

/- An accepted field other than the chart is beside them all. -/
theorem beside_denied (hValid : validateHelmReleaseField field = .ok ())
    (hChart : field ≠ ("chart" : Text)) :
    ∀ out ∈ helmReleaseDeniedPaths.map (List.splitOn '.'), Json.Beside (field.splitOn '.') out := by
  intro out hOut
  rcases List.mem_map.mp hOut with ⟨denied, hMem, hEq⟩
  have hAllowed := (validateHelmReleaseField_eq_ok.mp hValid).2 denied hMem
  rw [← hEq]
  constructor
  · intro hPrefix
    rcases eq_chart_of_prefix hMem hPrefix with hSame | hParent
    · unfold deniedBy at hAllowed
      rw [hSame, beq_self_eq_true] at hAllowed
      cases hAllowed
    · exact hChart hParent
  · intro hPrefix
    rw [deniedBy_of_begins hPrefix] at hAllowed
    cases hAllowed

theorem extract_of_decoded {path : Text} (hValid : validateHelmReleaseAttributePath path = .ok ())
    {codec : HelmCodec} {obj : Option Unstructured} {release : List (Text × Json)}
    (hDecoded : codec.decodeHelmReleaseSecret obj = .ok release) :
    extractHelmReleaseField codec obj path =
      nestedFieldFromRelease release (helmReleaseField path) := by
  unfold validateHelmReleaseAttributePath at hValid
  dsimp only at hValid
  split_ifs at hValid with hPrefix hEmpty
  have hField : validateHelmReleaseField (resolveHelmReleaseField
        (Text.trimStart (Text.trimSpace path) helmReleasePathPrefix)) = .ok () := hValid
  unfold extractHelmReleaseField
  dsimp only
  rw [if_neg hEmpty, hField, hDecoded]
  rfl

theorem validField_of_validPath
    {path : Text} (hValid : validateHelmReleaseAttributePath path = .ok ()) :
    validateHelmReleaseField (helmReleaseField path) = .ok () := by
  unfold validateHelmReleaseAttributePath at hValid
  dsimp only at hValid
  split_ifs at hValid
  exact hValid

variable (hNe : field ≠ []) (hLast : ∀ c ∈ field.getLast?, Text.isSpace c = false)

include hNe hLast in
theorem trimmed_path :
    Text.trimSpace (helmReleasePathPrefix ++ field) = helmReleasePathPrefix ++ field := by
  apply Text.trimFunc_eq_self_of_ends
  · intro c hC
    have hH : helmReleasePathPrefix.head? = some 'h' := rfl
    rw [List.head?_append, hH] at hC
    cases hC
    decide
  · intro c hC
    rw [List.getLast?_append_of_ne_nil _ hNe] at hC
    exact hLast c hC

include hNe hLast in
theorem helmReleaseField_append :
    helmReleaseField (helmReleasePathPrefix ++ field) = resolveHelmReleaseField field := by
  unfold helmReleaseField
  rw [trimmed_path hNe hLast, Text.trimStart_append]

include hNe hLast in
theorem validate_append : validateHelmReleaseAttributePath (helmReleasePathPrefix ++ field) =
      validateHelmReleaseField (resolveHelmReleaseField field) := by
  have hPrefix : helmReleasePathPrefix.isPrefixOf (helmReleasePathPrefix ++ field) = true := by
    rw [List.isPrefixOf_iff_prefix]
    exact List.prefix_append _ _
  unfold validateHelmReleaseAttributePath
  dsimp only
  rw [trimmed_path hNe hLast, Text.trimStart_append,
    helmReleaseField_append hNe hLast, if_neg (by simp [hPrefix]), if_neg hNe]

def releaseWithValues (values : Text) : List (Text × Json) :=
  [("chart", .obj [("values", .str values)])]

/- The decoders of Secrets that hold the values as they are. -/
def plainCodec : HelmCodec where
  base64Text encoded := .ok (encoded.map fun _ => 0)
  base64 _ := none
  gunzip _ := .error []
  unmarshal payload := some (releaseWithValues (payload.map fun _ => 'x'))

def secretWith (values : Text) : Option Unstructured :=
  some
    { namespace_ := []
      name := []
      uid := []
      labels := ∅
      object := [("data", .obj [("release", .str values)])] }

theorem redact_releaseWithValues :
    redactRelease (releaseWithValues []) = redactRelease (releaseWithValues ['x']) :=
  rfl

theorem decode_secretWith :
    plainCodec.decodeHelmReleaseSecret (secretWith []) = .ok (releaseWithValues []) ∧
      plainCodec.decodeHelmReleaseSecret (secretWith ['v']) = .ok (releaseWithValues ['x']) :=
  ⟨rfl, rfl⟩

theorem nested_chart (values : Text) : nestedFieldFromRelease (releaseWithValues values) "chart" =
      .ok (some (.obj [("values", .str values)])) :=
  rfl

/- An accepted path conceals what is not exportable, unless it names the whole chart. -/
theorem conceals_iff {path : Text} (hValid : validateHelmReleaseAttributePath path = .ok ()) :
    Conceals path ↔ helmReleaseField path ≠ ("chart" : Text) := by
  constructor
  · intro hConceals hChart
    have hSame := hConceals plainCodec _ _ _ _ decode_secretWith.1 decode_secretWith.2
      redact_releaseWithValues
    rw [extract_of_decoded hValid decode_secretWith.1,
      extract_of_decoded hValid decode_secretWith.2, hChart, nested_chart, nested_chart] at hSame
    simp at hSame
  · intro hChart codec obj obj' release release' hObj hObj' hRedacted
    have hBeside := beside_denied (validField_of_validPath hValid) hChart
    rw [extract_of_decoded hValid hObj, extract_of_decoded hValid hObj']
    unfold nestedFieldFromRelease
    unfold redactRelease at hRedacted
    rw [← Json.nested?_withoutAll hBeside (.obj release),
      ← Json.nested?_withoutAll hBeside (.obj release'), hRedacted]

/- The status of a release is accepted, and conceals. -/
theorem status_conceals :
    validateHelmReleaseAttributePath (helmReleasePathPrefix ++ ("status" : Text)) = .ok () ∧
      Conceals (helmReleasePathPrefix ++ ("status" : Text)) := by
  have hNe : ("status" : Text) ≠ [] := by decide
  have hLast : ∀ c ∈ ("status" : Text).getLast?, Text.isSpace c = false := by
    intro c hC
    cases hC
    rfl
  have hField : resolveHelmReleaseField "status" = ("info.status" : Text) := rfl
  have hValid : validateHelmReleaseAttributePath
      (helmReleasePathPrefix ++ ("status" : Text)) = .ok () := by
    rw [validate_append hNe hLast, hField]
    rfl
  refine ⟨hValid, (conceals_iff hValid).mpr ?_⟩
  rw [helmReleaseField_append hNe hLast, hField]
  decide

/-
  The chart itself is accepted, and with it the values that are denied: the Secrets differ in
  `chart.values` only, what is extracted from them differs.
-/
theorem chart_discloses_values :
    let path := helmReleasePathPrefix ++ ("chart" : Text)
    validateHelmReleaseAttributePath path = .ok () ∧
      plainCodec.decodeHelmReleaseSecret (secretWith []) = .ok (releaseWithValues []) ∧
      plainCodec.decodeHelmReleaseSecret (secretWith ['v']) = .ok (releaseWithValues ['x']) ∧
      redactRelease (releaseWithValues []) = redactRelease (releaseWithValues ['x']) ∧
      extractHelmReleaseField plainCodec (secretWith []) path ≠
        extractHelmReleaseField plainCodec (secretWith ['v'])
          path := by
  have hNe : ("chart" : Text) ≠ [] := by decide
  have hLast : ∀ c ∈ ("chart" : Text).getLast?, Text.isSpace c = false := by
    intro c hC
    cases hC
    rfl
  have hField : resolveHelmReleaseField "chart" = ("chart" : Text) := rfl
  have hValid : validateHelmReleaseAttributePath
      (helmReleasePathPrefix ++ ("chart" : Text)) = .ok () := by
    rw [validate_append hNe hLast, hField]
    rfl
  refine ⟨hValid, decode_secretWith.1, decode_secretWith.2, redact_releaseWithValues, ?_⟩
  rw [extract_of_decoded hValid decode_secretWith.1, extract_of_decoded hValid decode_secretWith.2,
    helmReleaseField_append hNe hLast, hField, nested_chart, nested_chart]
  simp

end Collect
end Kollect
