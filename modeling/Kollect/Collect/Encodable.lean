import Kollect.Export.Wire
import Kollect.Validation.Profile
import Kollect.Collect.ScrubMemory

/-
  Rows on their way to the encoder.

  What a row holds is extracted, scrubbed and, if the profile asks for it, joined by a copy of the
  object. Decoded documents can always be written again. A CEL expression may give a number that
  JSON has no text for, or a value of a Go type with rules of its own, and the scrubber looks into
  string-keyed maps and slices only.

  Key theorems include:
    * `refused?_scrub_iff`
    * `written_iff`
    * `rows_are_written_iff`
-/

namespace GoValue

----
-- The Encoder
----

/-
  `encoding/json` on values of other Go types: what it writes for the type and the content, or its
  error.
-/
structure ForeignEncoder where
  encode : Text → Text → Except Text Json
  encode_supported :
    ∀ goType content doc, encode goType content = .ok doc → doc.unsupported? = none

section Encoder

variable (enc : ForeignEncoder)

mutual

/- The error of `json.Marshal`, if it has one. -/
def refused? : GoValue → Option Text
  | .null => none
  | .bool _ => none
  | .int _ => none
  | .str _ => none
  | .float f =>
    if f ∈ Json.nonFinite then some ("json: unsupported value: " ++ f)
    else none
  | .other goType content =>
    match enc.encode goType content with
    | .error err => some err
    | .ok _ => none
  | .list xs => refusedElement? xs
  | .map members => refusedMember? members

def refusedElement? : List GoValue → Option Text
  | [] => none
  | x :: xs => (refused? x).or (refusedElement? xs)

def refusedMember? : List (Text × GoValue) → Option Text
  | [] => none
  | (_, x) :: members => (refused? x).or (refusedMember? members)

end

mutual

/- What the encoder writes of a value it does not refuse. -/
def json : GoValue → Json
  | .null => .null
  | .bool b => .bool b
  | .int n => .int n
  | .str s => .str s
  | .float f => .float f
  | .other goType content => (enc.encode goType content).toOption.getD .null
  | .list xs => .arr (jsonElements xs)
  | .map members => .obj (jsonMembers members)

def jsonElements : List GoValue → List Json
  | [] => []
  | x :: xs => json x :: jsonElements xs

def jsonMembers : List (Text × GoValue) → List (Text × Json)
  | [] => []
  | (key, x) :: members => (key, json x) :: jsonMembers members

end

variable {enc}

theorem refused?_list {xs : List GoValue} :
    (GoValue.list xs).refused? enc = none ↔ ∀ x ∈ xs, x.refused? enc = none := by
  rw [refused?]
  induction xs with
  | nil => exact iff_of_true rfl (List.forall_mem_nil _)
  | cons x xs ih => rw [refusedElement?, Option.or_eq_none_iff, ih, List.forall_mem_cons]

theorem refused?_map {members : List (Text × GoValue)} : (GoValue.map members).refused? enc = none ↔
      ∀ entry ∈ members, entry.2.refused? enc = none := by
  rw [refused?]
  induction members with
  | nil => exact iff_of_true rfl (List.forall_mem_nil _)
  | cons entry members ih => rw [refusedMember?, Option.or_eq_none_iff, ih, List.forall_mem_cons]

theorem jsonElements_eq (xs : List GoValue) : jsonElements enc xs = xs.map (json enc) := by
  induction xs with
  | nil => rfl
  | cons x xs ih => rw [jsonElements, ih, List.map_cons]

theorem jsonMembers_eq (members : List (Text × GoValue)) :
    jsonMembers enc members = members.map fun entry => (entry.1, entry.2.json enc) := by
  induction members with
  | nil => rfl
  | cons entry members ih => rw [jsonMembers, ih, List.map_cons]

/- What is written of a value that is not refused can be written again. -/
theorem unsupported?_json {v : GoValue} (hValue : v.refused? enc = none) :
    (v.json enc).unsupported? = none := by
  induction v using GoValue.induct with
  | leaf v hLeaf =>
    cases v with
    | list | map => cases hLeaf
    | float f =>
      rw [refused?] at hValue
      split_ifs at hValue with hFinite
      rw [json, Json.unsupported?, if_neg hFinite]
    | other goType content =>
      rw [refused?] at hValue
      cases hDoc : enc.encode goType content with
      | error err =>
        rw [hDoc] at hValue
        cases hValue
      | ok doc =>
        rw [json, hDoc]
        exact enc.encode_supported goType content doc hDoc
    | _ => rfl
  | list xs ih =>
    rw [refused?_list] at hValue
    rw [json, jsonElements_eq, Json.unsupported?_arr, List.forall_mem_map]
    exact fun x hX => ih x hX (hValue x hX)
  | map members ih =>
    rw [refused?_map] at hValue
    rw [json, jsonMembers_eq, Json.unsupported?_obj, List.forall_mem_map]
    exact fun entry hEntry => ih entry hEntry (hValue entry hEntry)

mutual

theorem refused?_ofJson : ∀ {doc : Json}, doc.unsupported? = none → (ofJson doc).refused? enc = none
  | .null, _ => rfl
  | .bool _, _ => rfl
  | .int _, _ => rfl
  | .str _, _ => rfl
  | .float f, hDoc => by
    rw [Json.unsupported?] at hDoc
    split_ifs at hDoc with hFinite
    rw [ofJson, refused?, if_neg hFinite]
  | .arr _, hDoc => by
    rw [Json.unsupported?] at hDoc
    rw [ofJson, refused?]
    exact refusedElement?_ofElements hDoc
  | .obj _, hDoc => by
    rw [Json.unsupported?] at hDoc
    rw [ofJson, refused?]
    exact refusedMember?_ofMembers hDoc

theorem refusedElement?_ofElements : ∀ {xs : List Json}, Json.unsupportedElement? xs = none →
      refusedElement? enc (ofElements xs) = none
  | [], _ => rfl
  | x :: xs, hXs => by
    rw [Json.unsupportedElement?, Option.or_eq_none_iff] at hXs
    rw [ofElements, refusedElement?, refused?_ofJson hXs.1, refusedElement?_ofElements hXs.2]
    rfl

theorem refusedMember?_ofMembers : ∀ {fields : List (Text × Json)},
      Json.unsupportedMember? fields = none → refusedMember? enc (ofMembers fields) = none
  | [], _ => rfl
  | (key, x) :: fields, hFields => by
    rw [Json.unsupportedMember?, Option.or_eq_none_iff] at hFields
    rw [ofMembers, refusedMember?, refused?_ofJson hFields.1, refusedMember?_ofMembers hFields.2]
    rfl

end

/- A number that JSON has no text for, or a value that the encoder has an error for. -/
inductive Unwritable (enc : ForeignEncoder) : GoValue → Prop where
  | number {f : Text} (hNonFinite : f ∈ Json.nonFinite) : Unwritable enc (.float f)
  | foreign {goType content err : Text} (hError : enc.encode goType content = .error err) :
      Unwritable enc (.other goType content)

theorem refused?_leaf {v : GoValue} (hLeaf : v.isLeaf = true) :
    v.refused? enc = none ↔ ¬ Unwritable enc v := by
  cases v with
  | list | map => cases hLeaf
  | float f =>
    rw [refused?]
    split_ifs with hFinite
    · exact iff_of_false nofun (not_not_intro (.number hFinite))
    · refine iff_of_true rfl ?_
      rintro ⟨hNonFinite⟩
      exact hFinite hNonFinite
  | other goType content =>
    rw [refused?]
    cases hDoc : enc.encode goType content with
    | error err => exact iff_of_false nofun (not_not_intro (.foreign hDoc))
    | ok doc =>
      refine iff_of_true rfl ?_
      rintro ⟨⟩
      rename_i err hError
      rw [hDoc] at hError
      cases hError
  | _ => exact iff_of_true rfl nofun

end Encoder

end GoValue

theorem Json.supported_nested? {path : List Text} {doc value : Json}
    (hFound : nested? path doc = .ok (some value)) (hDoc : doc.unsupported? = none) :
    value.unsupported? = none := by
  induction path generalizing doc with
  | nil =>
    cases hFound
    exact hDoc
  | cons key path ih =>
    cases doc with
    | obj fields =>
      rw [nested?_cons_obj] at hFound
      cases hField : fields.lookup key with
      | none =>
        rw [hField] at hFound
        cases hFound
      | some next =>
        rw [hField] at hFound
        refine ih hFound ?_
        rw [unsupported?_obj] at hDoc
        exact hDoc (key, next) (Json.mem_of_lookup hField)
    | _ => cases hFound

namespace Kollect
namespace Collect

open Validation Export
open GoValue (ForeignEncoder Unwritable)

----
-- What Scrubbing Leaves
----

variable {enc : ForeignEncoder}

theorem refused?_redactedValue : redactedValue.refused? enc = none := rfl

theorem refused?_scrub (s : Scrubber) {v : GoValue} (hValue : v.refused? enc = none) :
    (s.scrub v).refused? enc = none := by
  induction v using GoValue.induct with
  | leaf v hLeaf =>
    cases v with
    | list | map => cases hLeaf
    | _ => exact hValue
  | list xs ih =>
    rw [GoValue.refused?_list] at hValue
    rw [Scrubber.scrub, Scrubber.scrubList_eq, GoValue.refused?_list, List.forall_mem_map]
    exact fun x hX => ih x hX (hValue x hX)
  | map members ih =>
    rw [GoValue.refused?_map] at hValue
    rw [Scrubber.scrub, Scrubber.scrubMap_eq, GoValue.refused?_map, List.forall_mem_map]
    intro entry hEntry
    unfold Scrubber.scrubEntry
    split_ifs
    · exact refused?_redactedValue
    · exact ih entry hEntry (hValue entry hEntry)

/- A part of a value that is reached without passing through a redacted entry. -/
inductive Shows (s : Scrubber) : GoValue → GoValue → Prop where
  | self (v : GoValue) : Shows s v v
  | member {members : List (Text × GoValue)} {key : Text} {child w : GoValue}
      (hMem : (key, child) ∈ members) (hKept : s.shouldRedactKey key child = false)
      (hBelow : Shows s child w) : Shows s (.map members) w
  | element {xs : List GoValue} {child w : GoValue} (hMem : child ∈ xs)
      (hBelow : Shows s child w) : Shows s (.list xs) w

/- A scrubbed value is refused for what it still shows, and for nothing else. -/
theorem refused?_scrub_iff (s : Scrubber) {v : GoValue} :
    (s.scrub v).refused? enc = none ↔ ∀ w, Shows s v w → ¬ Unwritable enc w := by
  induction v using GoValue.induct with
  | leaf v hLeaf =>
    have hSame : s.scrub v = v := by
      cases v with
      | list | map => cases hLeaf
      | _ => rfl
    have hOnly : ∀ w, Shows s v w → w = v := by
      rintro w hShows
      cases hShows with
      | self => rfl
      | member => cases hLeaf
      | element => cases hLeaf
    rw [hSame, GoValue.refused?_leaf hLeaf]
    exact ⟨fun hNot w hShows => (hOnly w hShows).symm ▸ hNot, fun hAll => hAll v (.self v)⟩
  | list xs ih =>
    rw [Scrubber.scrub, Scrubber.scrubList_eq, GoValue.refused?_list, List.forall_mem_map]
    constructor
    · intro hAll w hShows
      cases hShows with
      | self => rintro ⟨⟩
      | element hMem hBelow => exact (ih _ hMem).mp (hAll _ hMem) w hBelow
    · intro hAll x hX
      exact (ih x hX).mpr fun w hBelow => hAll w (.element hX hBelow)
  | map members ih =>
    rw [Scrubber.scrub, Scrubber.scrubMap_eq, GoValue.refused?_map, List.forall_mem_map]
    constructor
    · intro hAll w hShows
      cases hShows with
      | self => rintro ⟨⟩
      | member hMem hKept hBelow =>
        have hEntry := hAll _ hMem
        rw [Scrubber.scrubEntry, hKept, if_neg Bool.false_ne_true] at hEntry
        exact (ih _ hMem).mp hEntry w hBelow
    · intro hAll entry hEntry
      unfold Scrubber.scrubEntry
      split_ifs with hRedacted
      · exact refused?_redactedValue
      · exact (ih entry hEntry).mpr fun w hBelow =>
          hAll w (.member hEntry (Bool.eq_false_iff.mpr hRedacted) hBelow)

theorem lookup_scrubAttributes (s : Scrubber) (attrs : GoMap Text GoValue) (name : Text) :
    (s.scrubAttributes attrs).lookup name = (attrs.lookup name).map s.scrub :=
  GoMap.lookup_ofList_map s.scrub attrs name

variable {members : List (Text × GoValue)}

theorem refused?_setMember {key : Text} {value : GoValue} (hValue : value.refused? enc = none)
    (hMembers : ∀ entry ∈ members, entry.2.refused? enc = none) :
    (GoValue.map (setMember key value members)).refused? enc = none := by
  rw [GoValue.refused?_map]
  intro entry hEntry
  rcases List.mem_append.mp hEntry with hOld | hNew
  · exact hMembers entry (List.mem_of_mem_filter hOld)
  · rw [List.mem_singleton.mp hNew]
    exact hValue

theorem refused?_of_lookup {key : Text} {value : GoValue}
    (hMembers : ∀ entry ∈ members, entry.2.refused? enc = none)
    (hValue : members.lookup key = some value) : value.refused? enc = none :=
  hMembers (key, value) (Json.mem_of_lookup hValue)

theorem refused?_stampCollectedGeneration (object : Object)
    (hMembers : ∀ entry ∈ members, entry.2.refused? enc = none) :
    (GoValue.map (stampCollectedGeneration members object)).refused? enc = none := by
  unfold stampCollectedGeneration
  split
  · rename_i metadata hMetadata
    have hInner := refused?_of_lookup hMembers hMetadata
    rw [GoValue.refused?_map] at hInner
    apply refused?_setMember _ hMembers
    apply refused?_setMember _ hInner
    apply refused?_setMember rfl
    split
    · rename_i annotations hAnnotations
      exact GoValue.refused?_map.mp (refused?_of_lookup hInner hAnnotations)
    · exact List.forall_mem_nil _
  · exact GoValue.refused?_map.mpr hMembers

theorem refused?_pruneResource (s : Scrubber) (spec : ExportSpec) {object : Object}
    (hObject : (Json.obj object).unsupported? = none) :
    (pruneResource s spec object).refused? enc = none := by
  have hScrubbed : (s.scrub (.ofJson (pruneObject spec object))).refused? enc = none :=
    refused?_scrub s (GoValue.refused?_ofJson (supported_pruneObject spec hObject))
  unfold pruneResource
  split
  · rename_i members hMembers
    rw [hMembers, GoValue.refused?_map] at hScrubbed
    exact refused?_stampCollectedGeneration object hScrubbed
  · exact hScrubbed

----
-- What Extraction Gives
----

section Extraction

variable {ev : Evaluators}

variable {path : Text}

theorem refused?_evalJSONPath {object : Object} {val : GoValue}
    (hObject : (Json.obj object).unsupported? = none)
    (hVal : ev.evalJSONPath object path = .ok val) : val.refused? enc = none := by
  rcases Fallible.bind_eq_ok.mp hVal with ⟨find, hFind, hRest⟩
  rw [Fallible.mapError_eq_ok] at hFind
  have hFound := fun results hResults =>
    ev.found_supported path find object results hFind hResults hObject
  split at hRest
  · split_ifs at hRest
    cases hRest
    rfl
  · cases hRest
    rfl
  · cases hRest
    rfl
  · rename_i value rows hResults
    cases hRest
    exact GoValue.refused?_ofJson (hFound _ hResults _ List.mem_cons_self _ List.mem_cons_self)
  · rename_i values rows _ _ hResults
    cases hRest
    rw [GoValue.refused?_list, List.forall_mem_map]
    intro value hValue
    exact GoValue.refused?_ofJson (hFound _ hResults _ List.mem_cons_self value hValue)

theorem supported_payload {payload : Bytes} {release : List (Text × Json)}
    (hRelease : ev.codec.decodeHelmReleasePayload payload = .ok release) :
    (Json.obj release).unsupported? = none := by
  unfold HelmCodec.decodeHelmReleasePayload at hRelease
  dsimp only at hRelease
  have hPlain : ∃ plain, ev.codec.unmarshal plain = some release := by
    split_ifs at hRelease
    all_goals
      rcases Fallible.bind_eq_ok.mp hRelease with ⟨plain, -, hOk⟩
      cases hDecoded : ev.codec.unmarshal plain with
      | none => rw [hDecoded] at hOk; cases hOk
      | some found =>
        rw [hDecoded] at hOk
        cases hOk
        exact ⟨plain, hDecoded⟩
  rcases hPlain with ⟨plain, hDecoded⟩
  exact ev.decoded_supported plain release hDecoded

theorem refused?_helm {obj : Unstructured} {value : Json}
    (hValue : extractHelmReleaseField ev.codec (some obj) path = .ok (some value)) :
    value.unsupported? = none := by
  unfold extractHelmReleaseField at hValue
  dsimp only at hValue
  split_ifs at hValue
  rcases Fallible.bind_eq_ok.mp hValue with ⟨-, -, hRest⟩
  rcases Fallible.bind_eq_ok.mp hRest with ⟨release, hRelease, hNested⟩
  unfold nestedFieldFromRelease at hNested
  split at hNested
  · cases hNested
  · rename_i found hFound
    cases hNested
    refine Json.supported_nested? hFound ?_
    rcases Fallible.bind_eq_ok.mp hRelease with ⟨encoded, -, hPayload⟩
    exact supported_payload hPayload

def isCEL (path : Text) : Bool := celPrefix.isPrefixOf (Text.trimSpace path)

/- The expression of a CEL path. -/
def celExpression (path : Text) : Text := Text.trimStart (Text.trimSpace path) celPrefix

theorem extractOne_of_isCEL (ev : Evaluators) {path : Text} (obj : Unstructured)
    (hPath : isCEL path = true) :
    ev.extractOne obj path = ev.evalCEL obj.object (celExpression path) := by
  have hNonempty : Text.trimSpace path ≠ [] := by
    intro hEmpty
    rw [isCEL, hEmpty] at hPath
    cases hPath
  unfold isCEL at hPath
  unfold Evaluators.extractOne
  dsimp only
  rw [if_neg hNonempty, if_pos hPath]
  rfl

theorem refused?_extractOne {obj : Unstructured} {val : GoValue}
    (hObject : (Json.obj obj.object).unsupported? = none) (hPath : isCEL path = false)
    (hVal : ev.extractOne obj path = .ok val) : val.refused? enc = none := by
  unfold isCEL at hPath
  unfold Evaluators.extractOne at hVal
  dsimp only at hVal
  rw [hPath, if_neg Bool.false_ne_true] at hVal
  split_ifs at hVal
  · split at hVal
    · cases hVal
    · cases hVal
      rfl
    · rename_i value hValue
      cases hVal
      exact GoValue.refused?_ofJson (refused?_helm hValue)
  · exact refused?_evalJSONPath hObject hVal

end Extraction

----
-- Rows
----

/- An item as it is stored, with its Go values. -/
structure CollectedRow where
  targetNamespace : Text
  targetName : Text
  namespace_ : Text
  name : Text
  group : Text
  version : Text
  kind : Text
  uid : Text
  attributes : GoMap Text GoValue

namespace CollectedRow

section Encoder

variable (enc : ForeignEncoder)

/- The encoder's error on the attributes of a row. -/
def refused? (row : CollectedRow) : Option Text :=
  (GoValue.map (row.attributes.entries.map fun entry => (entry.1, entry.2))).refused? enc

/- The row as it is written, if it is not refused. -/
def item (row : CollectedRow) : Item where
  targetNamespace := row.targetNamespace
  targetName := row.targetName
  namespace_ := row.namespace_
  name := row.name
  group := row.group
  version := row.version
  kind := row.kind
  uid := row.uid
  attributes := GoMap.ofList (row.attributes.entries.map fun entry => (entry.1, entry.2.json enc))

end Encoder

theorem refused?_eq_none {row : CollectedRow} : row.refused? enc = none ↔
      ∀ name val, row.attributes.lookup name = some val → val.refused? enc = none := by
  unfold refused?
  rw [GoValue.refused?_map, List.forall_mem_map]
  constructor
  · intro hAll name val hVal
    exact hAll ⟨name, val⟩ (AList.mem_lookup_iff.mp hVal)
  · intro hAll entry hEntry
    exact hAll entry.1 entry.2 (AList.mem_lookup_iff.mpr hEntry)

/- A row that is not refused gives an item that can be written. -/
theorem unsupported?_item {row : CollectedRow} (hRow : row.refused? enc = none) :
    (itemJson (row.item enc)).unsupported? = none := by
  apply unsupported?_itemJson_of_attributes
  intro name value hValue
  rw [item, GoMap.lookup_ofList_map, Option.map_eq_some_iff] at hValue
  rcases hValue with ⟨val, hVal, rfl⟩
  exact GoValue.unsupported?_json (refused?_eq_none.mp hRow name val hVal)

end CollectedRow

/- What a row is made from. -/
structure Source where
  targetNamespace : Text
  targetName : Text
  profile : FullProfile
  object : Unstructured

section Rows

variable (ev : Evaluators) (low : Lowering) (scrubKeys : List Text)

def scrubberForProfile (profile : FullProfile) : Scrubber :=
  let extra := ((profile.export_.bind ExportSpec.prune).map PruneSpec.scrubKeys).getD []
  newScrubber low (scrubKeys ++ extra)

/- The row `processDispatch` stores of an object it accepts. -/
def collectRow (source : Source) : Except (Text × ExtractError) CollectedRow := do
  let u := source.object
  let profile := source.profile
  let attrs ← ev.extract u profile.spec.attributes
  let scrubber := scrubberForProfile low scrubKeys profile
  let attrs := scrubber.scrubAttributes attrs
  let attrs :=
    match profile.export_ with
    | some spec =>
      if spec.mode = .resource then
        attrs.insert spec.attributeKey (pruneResource scrubber spec u.object)
      else attrs
    | none => attrs
  pure
    { targetNamespace := source.targetNamespace
      targetName := source.targetName
      namespace_ := u.namespace_
      name := u.name
      group := profile.spec.targetGVK.group
      version := profile.spec.targetGVK.version
      kind := profile.spec.targetGVK.kind
      uid := u.uid
      attributes := attrs }

/-
  No CEL expression of the profile gives a value with a non-finite number, or with a Go value the
  encoder has an error for, outside of the entries that are redacted.
-/
def CelValuesWritable (enc : ForeignEncoder) (source : Source) : Prop :=
  ∀ attr ∈ source.profile.spec.attributes, isCEL attr.path = true →
    ∀ val, ev.evalCEL source.object.object (celExpression attr.path) = .ok val →
      ∀ w, Shows (scrubberForProfile low scrubKeys source.profile) val w → ¬ Unwritable enc w

variable {ev low scrubKeys}

/- The attributes of a row are scrubbed values, or the copy. -/
theorem lookup_collectRow {source : Source} {row : CollectedRow}
    (hRow : collectRow ev low scrubKeys source = .ok row) :
    ∃ attrs, ev.extract source.object source.profile.spec.attributes = .ok attrs ∧
      ∀ name, row.attributes.lookup name =
          (attrs.lookup name).map (scrubberForProfile low scrubKeys source.profile).scrub ∨
        ∃ spec, source.profile.export_ = some spec ∧
          spec.mode = .resource ∧ name = spec.attributeKey ∧
          row.attributes.lookup name = some (pruneResource
            (scrubberForProfile low scrubKeys source.profile) spec source.object.object) := by
  rcases Fallible.bind_eq_ok.mp hRow with ⟨attrs, hAttrs, hRest⟩
  refine ⟨attrs, hAttrs, fun name => ?_⟩
  cases hRest
  split
  · rename_i spec hSpec
    split_ifs with hMode
    · rw [GoMap.lookup_insert_ite]
      split_ifs with hName
      · exact Or.inr ⟨spec, hSpec, hMode, hName, rfl⟩
      · exact Or.inl (lookup_scrubAttributes _ attrs name)
    · exact Or.inl (lookup_scrubAttributes _ attrs name)
  · exact Or.inl (lookup_scrubAttributes _ attrs name)

theorem refused?_collectRow {source : Source} {row : CollectedRow}
    (hAdmitted : validateProfile ev source.profile = [])
    (hObject : (Json.obj source.object.object).unsupported? = none)
    (hRow : collectRow ev low scrubKeys source = .ok row) :
    row.refused? enc = none ↔ CelValuesWritable ev low scrubKeys enc source := by
  rcases lookup_collectRow hRow with ⟨attrs, hAttrs, hLookup⟩
  rw [CollectedRow.refused?_eq_none]
  constructor
  · intro hRefused attr hMem hCEL val hVal
    rw [← extractOne_of_isCEL ev source.object hCEL] at hVal
    rw [← refused?_scrub_iff]
    cases hSkip : Evaluators.isNil val && attr.optional with
    | true =>
      -- a null is left out, and would be written
      have hNull : val = .null := by
        cases val with
        | null => rfl
        | _ => cases hSkip
      rw [hNull]
      rfl
    | false =>
      have hFound := Evaluators.extract_lookup_of_yields
        (names_of_validateProfile hAdmitted) hAttrs hMem ⟨hVal, hSkip⟩
      rcases hLookup attr.name with hScrubbed | ⟨spec, hSpec, hMode, hName, -⟩
      · rw [hFound] at hScrubbed
        exact hRefused attr.name _ hScrubbed
      · -- the key of the copy is no attribute's name
        have hKey := exportKey_of_validateProfile hAdmitted hSpec hMode
        rw [← hName] at hKey
        exact absurd (List.mem_map_of_mem hMem) hKey
  · intro hWritable name out hOut
    rcases hLookup name with hScrubbed | ⟨spec, -, -, -, hCopy⟩
    · rw [hOut] at hScrubbed
      rcases Option.map_eq_some_iff.mp hScrubbed.symm with ⟨val, hVal, rfl⟩
      rcases Evaluators.lookup_of_extract hAttrs hVal with ⟨attr, hMem, hYields⟩
      cases hCEL : isCEL attr.path with
      | true =>
        have hVal := hYields.1
        rw [extractOne_of_isCEL ev source.object hCEL] at hVal
        exact (refused?_scrub_iff _).mpr (hWritable attr hMem hCEL val hVal)
      | false => exact refused?_scrub _ (refused?_extractOne hObject hCEL hYields.1)
    · rw [hOut] at hCopy
      cases hCopy
      exact refused?_pruneResource _ spec hObject

/-
  The row of an admitted profile has the scrubbed value of each attribute under its own name, and
  beside these only the embedded copy.
-/
theorem row_holds_attributes {source : Source} {row : CollectedRow}
    (hAdmitted : validateProfile ev source.profile = [])
    (hRow : collectRow ev low scrubKeys source = .ok row) :
    (∀ attr ∈ source.profile.spec.attributes, ∀ val, ev.Yields source.object attr val →
      row.attributes.lookup attr.name =
        some ((scrubberForProfile low scrubKeys source.profile).scrub val)) ∧
    ∀ name ∈ row.attributes, name ∈ source.profile.spec.attributes.map AttributeSpec.name ∨
      ∃ spec, source.profile.export_ = some spec ∧ spec.mode = .resource ∧
        name = spec.attributeKey := by
  rcases lookup_collectRow hRow with ⟨attrs, hAttrs, hLookup⟩
  constructor
  · intro attr hMem val hYields
    rcases hLookup attr.name with hScrubbed | ⟨spec, hSpec, hMode, hName, -⟩
    · rw [hScrubbed, Evaluators.extract_lookup_of_yields (names_of_validateProfile hAdmitted) hAttrs
        hMem hYields, Option.map_some]
    · have hKey := exportKey_of_validateProfile hAdmitted hSpec hMode
      rw [← hName] at hKey
      exact absurd (List.mem_map_of_mem hMem) hKey
  · intro name hMem
    rcases hLookup name with hScrubbed | ⟨spec, hSpec, hMode, hName, -⟩
    · left
      by_contra hNot
      rw [Evaluators.extractFrom_lookup_of_notMem hAttrs hNot] at hScrubbed
      rw [← AList.lookup_isSome, hScrubbed] at hMem
      cases hMem
    · exact .inr ⟨spec, hSpec, hMode, hName⟩

end Rows

----
-- Marshalling
----

section Marshalling

variable (S : Sorter Text) (sha : Digest) (enc : ForeignEncoder)

variable (rows : List CollectedRow)

/- `json.Marshal` of rows; the items, if none is refused. -/
def marshalRows : Except Text (List Item) :=
  match rows.findSome? (CollectedRow.refused? enc) with
  | some err => .error err
  | none => .ok (rows.map (CollectedRow.item enc))

def canonicalRows : List CollectedRow :=
  S.sortBy (fun row => itemCanonicalKey (row.item enc)) rows

def itemsFingerprint : Except Text Text := do
  let items ← (marshalRows enc (canonicalRows S enc rows)).mapError
    fun err => "marshal items for fingerprint: ".toList ++ err
  pure (sha.hex (Json.arr (items.map itemJson)).encode)

def marshalExportEnvelope (metadata : Metadata) : Except Text Text := do
  let items ← (marshalRows enc (canonicalRows S enc rows)).mapError
    fun err => "marshal export items: ".toList ++ err
  pure (envelopeOf sha items metadata).encode

inductive PartitionError where
  | marshal (message : Text)
  | tooLarge (message : Text)
deriving DecidableEq, Repr

def partitionEnvelopes (metadata : Metadata) (maxBytes : Int) :
    Except PartitionError (List EnvelopePartition) := do
  let items ← (marshalRows enc rows).mapError fun err =>
    .marshal ("marshal item sort key: ".toList ++ err)
  let groups ← (Wire.partitionItemGroups S sha
    (S.sortBy wireText items) metadata maxBytes).mapError .tooLarge
  pure (groups.mapIdx fun i group => Wire.partOf S sha metadata (i + 1) groups.length group)

/- None of the three functions fails to marshal the rows. -/
structure Written (rows : List CollectedRow) : Prop where
  fingerprint : ∃ sum, itemsFingerprint S sha enc rows = .ok sum
  envelope : ∀ metadata, ∃ payload, marshalExportEnvelope S sha enc rows metadata = .ok payload
  parts : ∀ metadata maxBytes message,
    partitionEnvelopes S sha enc rows metadata maxBytes ≠ .error (.marshal message)

variable {S sha enc}

variable {rows : List CollectedRow}

theorem marshalRows_eq_ok {items : List Item} : marshalRows enc rows = .ok items ↔
      (∀ row ∈ rows, row.refused? enc = none) ∧ items = rows.map (CollectedRow.item enc) := by
  unfold marshalRows
  rw [← List.findSome?_eq_none_iff]
  cases rows.findSome? (CollectedRow.refused? enc) with
  | some err => simp
  | none => simp [eq_comm]

theorem mem_canonicalRows {row : CollectedRow} : row ∈ canonicalRows S enc rows ↔ row ∈ rows :=
  S.mem_sortBy _

theorem written_iff : Written S sha enc rows ↔ ∀ row ∈ rows, row.refused? enc = none := by
  constructor
  · intro hWritten row hRow
    rcases hWritten.fingerprint with ⟨sum, hSum⟩
    rcases Fallible.bind_eq_ok.mp hSum with ⟨items, hItems, -⟩
    rw [Fallible.mapError_eq_ok, marshalRows_eq_ok] at hItems
    exact hItems.1 row (mem_canonicalRows.mpr hRow)
  · intro hAll
    have hSorted : marshalRows enc (canonicalRows S enc rows) =
        .ok ((canonicalRows S enc rows).map (CollectedRow.item enc)) :=
      marshalRows_eq_ok.mpr ⟨fun row hRow => hAll row (mem_canonicalRows.mp hRow), rfl⟩
    refine ⟨?_, ?_, ?_⟩
    · unfold itemsFingerprint
      rw [hSorted]
      exact ⟨_, rfl⟩
    · intro metadata
      unfold marshalExportEnvelope
      rw [hSorted]
      exact ⟨_, rfl⟩
    · intro metadata maxBytes message hError
      unfold partitionEnvelopes at hError
      rw [marshalRows_eq_ok.mpr ⟨hAll, rfl⟩] at hError
      rcases Fallible.bind_eq_error.mp hError with hNone | ⟨items, -, hRest⟩
      · cases hNone
      · rcases Fallible.bind_eq_error.mp hRest with hGroups | ⟨groups, -, hPure⟩
        · cases hSplit : Wire.partitionItemGroups S sha
              (S.sortBy wireText items) metadata maxBytes with
          | ok groups =>
            rw [hSplit] at hGroups
            cases hGroups
          | error err =>
            rw [hSplit] at hGroups
            cases hGroups
        · cases hPure

/- Rows that are not refused go on as the items of `Kollect.Export.Wire`. -/
theorem written_as_items (hRows : ∀ row ∈ rows, row.refused? enc = none) (metadata : Metadata)
    (maxBytes : Int) :
    itemsFingerprint S sha enc rows = Wire.itemsFingerprint S sha (rows.map (·.item enc)) ∧
      marshalExportEnvelope S sha enc rows metadata =
        Wire.marshalExportEnvelope S sha (rows.map (·.item enc)) metadata ∧
      partitionEnvelopes S sha enc rows metadata maxBytes =
        (Wire.partitionEnvelopes S sha (rows.map (·.item enc)) metadata maxBytes).mapError
          .tooLarge := by
  have hItems : marshalRows enc rows = .ok (rows.map (·.item enc)) :=
    marshalRows_eq_ok.mpr ⟨hRows, rfl⟩
  have hSorted : marshalRows enc (canonicalRows S enc rows) =
      .ok (Wire.canonicalItems S (rows.map (·.item enc))) :=
    marshalRows_eq_ok.mpr ⟨fun row hRow => hRows row (mem_canonicalRows.mp hRow),
      (S.map_sortBy (CollectedRow.item enc) itemCanonicalKey rows).symm⟩
  have hEach : ∀ item ∈ rows.map (·.item enc), (itemJson item).unsupported? = none :=
    List.forall_mem_map.mpr fun row hRow => CollectedRow.unsupported?_item (hRows row hRow)
  have hAll : (Json.arr ((Wire.canonicalItems S
      (rows.map (·.item enc))).map itemJson)).unsupported? = none := by
    rw [Json.unsupported?_arr, List.forall_mem_map]
    exact fun item hItem => hEach item ((S.mem_sortBy _).mp hItem)
  refine ⟨?_, ?_, ?_⟩
  · unfold itemsFingerprint Wire.itemsFingerprint
    dsimp only
    rw [hSorted, hAll]
    rfl
  · unfold marshalExportEnvelope Wire.marshalExportEnvelope
    dsimp only
    rw [hSorted, hAll]
    rfl
  · unfold partitionEnvelopes Wire.partitionEnvelopes Wire.stableItems
    rw [hItems, List.findSome?_eq_none_iff.mpr hEach]
    dsimp only [Except.mapError, bind, Except.bind]
    cases Wire.partitionItemGroups S sha (S.sortBy wireText (rows.map (·.item enc)))
        metadata maxBytes with
    | error err => rfl
    | ok groups => rfl

/-
  Rows of admitted profiles are written exactly if no CEL expression shows a non-finite number or a
  value of a Go type with an error. One such value keeps back the rows of all other objects.
-/
theorem rows_are_written_iff {ev : Evaluators} {low : Lowering} {scrubKeys : List Text}
    {sources : List Source} {rows : List CollectedRow}
    (hAdmitted : ∀ source ∈ sources, validateProfile ev source.profile = [])
    (hObjects : ∀ source ∈ sources, (Json.obj source.object.object).unsupported? = none)
    (hRows : sources.mapM (collectRow ev low scrubKeys) = .ok rows) :
    Written S sha enc rows ↔ ∀ source ∈ sources, CelValuesWritable ev low scrubKeys enc source := by
  rw [Fallible.mapM_eq_ok] at hRows
  rw [written_iff]
  constructor
  · intro hAll source hSource
    have hMem := List.mem_map_of_mem hSource (f := collectRow ev low scrubKeys)
    rw [hRows] at hMem
    rcases List.mem_map.mp hMem with ⟨row, hRow, hEq⟩
    exact (refused?_collectRow (hAdmitted source hSource)
      (hObjects source hSource) hEq.symm).mp (hAll row hRow)
  · intro hAll row hRow
    have hMem := List.mem_map_of_mem hRow (f := (Except.ok : _ → Except (Text × ExtractError) _))
    rw [← hRows] at hMem
    rcases List.mem_map.mp hMem with ⟨source, hSource, hEq⟩
    exact (refused?_collectRow (hAdmitted source hSource)
      (hObjects source hSource) hEq).mpr (hAll source hSource)

end Marshalling

/- An encoder that knows times. -/
def timesOnly : ForeignEncoder where
  encode goType content :=
    if goType = ("time.Time" : Text) then .ok (.str content)
    else .error ("json: unsupported type: " ++ goType)
  encode_supported := by
    rintro goType content doc hDoc
    split_ifs at hDoc
    cases hDoc
    rfl

/-
  Evaluators that know a few expressions: a quotient that is no number, a time, a text, and the path
  to the kind of the object.
-/
def fewExpressions : Evaluators where
  compile expr := .ok expr
  program ast := .ok fun _ =>
    if ast = ("0.0 / 0.0" : Text) then .ok (some (.float "NaN"))
    else if ast = ("timestamp('2026-01-01T00:00:00Z')" : Text) then
      .ok (some (.other "time.Time" "2026-01-01T00:00:00Z"))
    else .ok (some (.str "a"))
  parse path :=
    if path = ("\x7b.kind\x7d" : Text) then
      .ok fun object => (object.lookup ("kind" : Text)).elim (.error "kind is not found")
        fun kind => .ok [[kind]]
    else .error "unknown path"
  codec := plainCodec
  found_supported := by
    rintro path find object results hFind hResults hObject row hRow value hValue
    split_ifs at hFind
    cases hFind
    dsimp only at hResults
    cases hKind : object.lookup ("kind" : Text) with
    | none =>
      rw [hKind] at hResults
      cases hResults
    | some kind =>
      rw [hKind] at hResults
      cases hResults
      rw [List.mem_singleton.mp hRow] at hValue
      rw [List.mem_singleton.mp hValue]
      exact Json.unsupported?_obj.mp hObject _ (Json.mem_of_lookup hKind)
  decoded_supported := by
    rintro payload release hRelease
    cases hRelease
    rfl

/- A Deployment, and a profile with some attributes. -/
def deploymentWith (name : Text) (attributes : List AttributeSpec) (export_ : Option ExportSpec) :
    Source where
  targetNamespace := "team"
  targetName := "apps"
  profile :=
    { name := "apps"
      generation := 1
      annotations := ∅
      spec :=
        { targetGVK := ⟨"apps", "v1", "Deployment"⟩
          attributes := attributes }
      export_ := export_
      metrics := [] }
  object :=
    { namespace_ := "team"
      name := name
      uid := name
      labels := ∅
      object := [("kind", .str "Deployment")] }

def oneAttribute (name path : Text) : Source := deploymentWith name [⟨name, path, false⟩] none

/- A text and a time are written. -/
theorem texts_are_written :
    ∃ rows,
      [oneAttribute "web" "cel:'a'", oneAttribute "db" "cel:timestamp('2026-01-01T00:00:00Z')"].mapM
          (collectRow fewExpressions asciiLowering []) = .ok rows ∧
      Written Sorter.stable paddedDigest timesOnly rows := by
  have hRows : [oneAttribute "web" "cel:'a'",
      oneAttribute "db" "cel:timestamp('2026-01-01T00:00:00Z')"].mapM
        (collectRow fewExpressions asciiLowering []) = .ok _ := rfl
  refine ⟨_, hRows, (rows_are_written_iff ?_ ?_ hRows).mpr ?_⟩
  · exact List.forall_mem_cons.mpr ⟨rfl, List.forall_mem_singleton.mpr rfl⟩
  · exact List.forall_mem_cons.mpr ⟨rfl, List.forall_mem_singleton.mpr rfl⟩
  · refine List.forall_mem_cons.mpr ⟨?_, List.forall_mem_singleton.mpr ?_⟩
    · intro attr hAttr hCEL val hVal
      rw [List.mem_singleton.mp hAttr] at hVal
      cases hVal
      rw [← refused?_scrub_iff]
      rfl
    · intro attr hAttr hCEL val hVal
      rw [List.mem_singleton.mp hAttr] at hVal
      cases hVal
      rw [← refused?_scrub_iff]
      rfl

/- An expression and a path beside a copy of the object. -/
def imageAndKind : Source :=
  deploymentWith "web" [⟨"image", "cel:'a'", false⟩, ⟨"kind", "$.kind", false⟩]
    (some ⟨.resource, [], none, none, none⟩)

theorem attributes_and_copy_are_held :
    ∃ row, collectRow fewExpressions asciiLowering [] imageAndKind = .ok row ∧
      row.attributes.lookup ("image" : Text) = some (.str "a") ∧
      row.attributes.lookup ("kind" : Text) = some (.str "Deployment") ∧
      (row.attributes.lookup defaultExportAs).isSome = true := by
  have hRow : collectRow fewExpressions asciiLowering [] imageAndKind = .ok _ := rfl
  have hHeld := (row_holds_attributes rfl hRow).1
  refine ⟨_, hRow, ?_, ?_, rfl⟩
  · exact hHeld _ List.mem_cons_self (.str "a") ⟨rfl, rfl⟩
  · exact hHeld _ (List.mem_cons_of_mem _ List.mem_cons_self) (.str "Deployment") ⟨rfl, rfl⟩

/-
  A profile with a quotient that is no number is accepted, its row is stored beside another, and the
  two are refused.
-/
theorem cel_value_blocks_namespace :
    validateProfile fewExpressions (oneAttribute "db" "cel:0.0 / 0.0").profile = [] ∧
    ∃ rows, [oneAttribute "web" "cel:'a'", oneAttribute "db" "cel:0.0 / 0.0"].mapM
        (collectRow fewExpressions asciiLowering []) = .ok rows ∧
      itemsFingerprint Sorter.stable paddedDigest timesOnly rows =
        .error "marshal items for fingerprint: json: unsupported value: NaN" :=
  ⟨by decide +kernel, _, rfl, by decide +kernel⟩

end Collect
end Kollect
