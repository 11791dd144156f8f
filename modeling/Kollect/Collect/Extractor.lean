import Kollect.Collect.HelmRelease
import Kollect.Foundation.GoValue
import Kollect.Foundation.JsonWire

/-
  Evaluation of attribute paths (`internal/collect/extractor.go`, `validate.go`).

  A path is a CEL expression, a field of a Helm release or a JSONPath. The two libraries that
  evaluate CEL and JSONPath are parameters. JSONPath and Helm give parts of decoded documents; CEL
  gives Go values of its own.

  Key theorems include:
    * `Evaluators.lookup_of_extract`
    * `Evaluators.extract_lookup_of_yields`
-/

namespace Kollect
namespace Collect

----
-- Evaluators
----

abbrev Object := List (Text × Json)

/-
  `cel-go` and client-go's `jsonpath`, as what they return.

  A CEL expression is compiled, and the program built; a run of it gives no value for
  `types.NullValue`, and otherwise what `Value()` of its result is. A JSONPath finds values of the
  object, or literals of the path.
-/
structure Evaluators where
  compile : Text → Except Text Text
  program : Text → Except Text (Object → Except Text (Option GoValue))
  parse : Text → Except Text (Object → Except Text (List (List Json)))
  codec : HelmCodec
  found_supported :
    ∀ path find object results, parse path = .ok find → find object = .ok results →
      (Json.obj object).unsupported? = none →
        ∀ row ∈ results, ∀ value ∈ row, value.unsupported? = none
  decoded_supported :
    ∀ payload release,
      codec.unmarshal payload = some release → (Json.obj release).unsupported? = none

inductive ExtractError where
  | emptyPath
  | unmarkedCEL
  | emptyCEL
  | compileCEL (message : Text)
  | buildCEL (message : Text)
  | evalCEL (class_ : Text)
  | helm (err : HelmError)
  | parseJSONPath (message : Text)
  | evalJSONPath (class_ : Text)
deriving DecidableEq, Repr

----
-- Classes Of Errors
----

def celEvalErrorClasses : List (Text × Text) :=
  [("no such key", "no such key"), ("no such attribute", "no such attribute"),
    ("no such overload", "no matching overload (type mismatch)"),
    ("type conversion error", "type conversion error"), ("timestamp", "invalid timestamp"),
    ("duration", "invalid duration"), ("division by zero", "division by zero"),
    ("modulus by zero", "modulus by zero"), ("out of bounds", "index out of bounds"),
    ("out of range", "index out of bounds"), ("unsupported index type", "unsupported index type"),
    ("regexp", "invalid regular expression"), ("overflow", "numeric overflow")]

def jsonPathEvalErrorClasses : List (Text × Text) :=
  [("cannot be filtered", "filter applied to a non-list value"),
    ("incompatible types for comparison", "incompatible types for comparison"),
    ("out of bounds", "array index out of bounds"),
    ("is not array or slice", "index applied to a non-list value")]

def classifyEvalError (classes : List (Text × Text)) (message : Text) : Text :=
  "evaluation error: ".toList ++
    match classes.find? fun rule => Text.contains message rule.1 with
    | some rule => rule.2
    | none => "unclassified (details withheld; they may contain resource data)"

def isJSONPathNotFound (message : Text) : Bool := Text.contains message "is not found"

----
-- Extraction
----

def celPrefix : Text := "cel:"

def normalizeJSONPath : Text → Text
  | '$' :: '.' :: path => '{' :: '.' :: path ++ ['}']
  | path => path

namespace Evaluators

variable (ev : Evaluators)

def evalJSONPath (object : Object) (path : Text) : Except ExtractError GoValue := do
  let find ← (ev.parse path).mapError .parseJSONPath
  match find object with
  | .error message =>
    if isJSONPathNotFound message then .ok .null
    else .error (.evalJSONPath (classifyEvalError jsonPathEvalErrorClasses message))
  | .ok [] => .ok .null
  | .ok ([] :: _) => .ok .null
  | .ok ([value] :: _) => .ok (.ofJson value)
  | .ok (values :: _) => .ok (.list (values.map .ofJson))

def celProgram (expr : Text) : Except ExtractError (Object → Except Text (Option GoValue)) := do
  let ast ← (ev.compile expr).mapError .compileCEL
  (ev.program ast).mapError .buildCEL

def evalCEL (object : Object) (expr : Text) : Except ExtractError GoValue :=
  let expr := Text.trimSpace expr
  if expr = [] then .error .emptyCEL
  else do
    let run ← ev.celProgram expr
    match run object with
    | .error message => .error (.evalCEL (classifyEvalError celEvalErrorClasses message))
    | .ok out => .ok (out.getD .null)

def extractOne (obj : Unstructured) (path : Text) : Except ExtractError GoValue :=
  let path := Text.trimSpace path
  if path = [] then .error .emptyPath
  else if celPrefix.isPrefixOf path then ev.evalCEL obj.object (Text.trimStart path celPrefix)
  else if helmReleasePathPrefix.isPrefixOf path then
    match extractHelmReleaseField ev.codec (some obj) path with
    | .error err => .error (.helm err)
    | .ok none => .ok .null
    | .ok (some value) => .ok (.ofJson value)
  else ev.evalJSONPath obj.object (normalizeJSONPath path)

def isNil : GoValue → Bool
  | .null => true
  | _ => false

def extractFrom (obj : Unstructured) (results : GoMap Text GoValue) :
    List AttributeSpec → Except (Text × ExtractError) (GoMap Text GoValue)
  | [] => .ok results
  | attr :: attrs =>
    match ev.extractOne obj attr.path with
    | .error err =>
      if attr.optional then extractFrom obj results attrs
      else .error (attr.name, err)
    | .ok val =>
      if isNil val && attr.optional then extractFrom obj results attrs
      else extractFrom obj (results.insert attr.name val) attrs

def extract (obj : Unstructured) (attrs : List AttributeSpec) :
    Except (Text × ExtractError) (GoMap Text GoValue) :=
  ev.extractFrom obj ∅ attrs

def validateAttributePath (path : Text) : Except ExtractError Unit :=
  let path := Text.trimSpace path
  if path = [] then .error .emptyPath
  else if celPrefix.isPrefixOf path then
    (ev.celProgram (Text.trimSpace (Text.trimStart path celPrefix))).map fun _ => ()
  else if ("object." : Text).isPrefixOf path ∨ ("object[" : Text).isPrefixOf path then
    .error .unmarkedCEL
  else if helmReleasePathPrefix.isPrefixOf path then
    (validateHelmReleaseAttributePath path).mapError .helm
  else ((ev.parse (normalizeJSONPath path)).mapError .parseJSONPath).map fun _ => ()

----
-- The Extracted Map
----

/- The value an attribute adds to the map. -/
def Yields (obj : Unstructured) (attr : AttributeSpec) (val : GoValue) : Prop :=
  ev.extractOne obj attr.path = .ok val ∧ (isNil val && attr.optional) = false

variable {ev}

variable {obj : Unstructured} {attrs : List AttributeSpec} {results out : GoMap Text GoValue}
variable {name : Text} {val : GoValue}

theorem lookup_of_extractFrom (hOut : ev.extractFrom obj results attrs = .ok out)
    (hVal : out.lookup name = some val) :
    results.lookup name = some val ∨ ∃ attr ∈ attrs, ev.Yields obj attr val := by
  induction attrs generalizing results with
  | nil =>
    cases hOut
    exact Or.inl hVal
  | cons attr attrs ih =>
    have hLater : ∀ {results' : GoMap Text GoValue},
        ev.extractFrom obj results' attrs = .ok out →
          results'.lookup name = some val ∨ ∃ attr' ∈ attr :: attrs, ev.Yields obj attr' val := by
      intro results' hOut'
      rcases ih hOut' with hOld | ⟨attr', hMem, hYields⟩
      · exact Or.inl hOld
      · exact Or.inr ⟨attr', List.mem_cons_of_mem _ hMem, hYields⟩
    rw [extractFrom] at hOut
    split at hOut
    · split_ifs at hOut
      exact hLater hOut
    · rename_i val' hOne
      split_ifs at hOut with hSkip
      · exact hLater hOut
      · rcases hLater hOut with hInserted | hFound
        · rw [GoMap.lookup_insert_ite] at hInserted
          split_ifs at hInserted with hName
          · cases hInserted
            exact Or.inr ⟨attr, List.mem_cons_self, hOne, Bool.eq_false_iff.mpr hSkip⟩
          · exact Or.inl hInserted
        · exact Or.inr hFound

theorem lookup_of_extract (hOut : ev.extract obj attrs = .ok out)
    (hVal : out.lookup name = some val) : ∃ attr ∈ attrs, ev.Yields obj attr val := by
  rcases lookup_of_extractFrom hOut hVal with hEmpty | hFound
  · cases hEmpty
  · exact hFound

/- A name that no later attribute has keeps its value. -/
theorem extractFrom_lookup_of_notMem (hOut : ev.extractFrom obj results attrs = .ok out)
    (hName : name ∉ attrs.map AttributeSpec.name) : out.lookup name = results.lookup name := by
  induction attrs generalizing results with
  | nil =>
    cases hOut
    rfl
  | cons attr attrs ih =>
    rw [List.map_cons, List.mem_cons, not_or] at hName
    rw [extractFrom] at hOut
    split at hOut
    · split_ifs at hOut
      exact ih hOut hName.2
    · split_ifs at hOut
      · exact ih hOut hName.2
      · rw [ih hOut hName.2, GoMap.lookup_insert_ite, if_neg hName.1]

/- Attributes with names of their own all reach the map. -/
theorem extract_lookup_of_yields (hNames : (attrs.map AttributeSpec.name).Nodup)
    (hOut : ev.extractFrom obj results attrs = .ok out) {attr : AttributeSpec} (hMem : attr ∈ attrs)
    (hYields : ev.Yields obj attr val) : out.lookup attr.name = some val := by
  induction attrs generalizing results with
  | nil => cases hMem
  | cons head attrs ih =>
    rw [List.map_cons, List.nodup_cons] at hNames
    rcases List.mem_cons.mp hMem with rfl | hTail
    · rw [extractFrom, hYields.1] at hOut
      dsimp only at hOut
      rw [hYields.2, if_neg Bool.false_ne_true] at hOut
      rw [extractFrom_lookup_of_notMem hOut hNames.1, GoMap.lookup_insert_ite, if_pos rfl]
    · rw [extractFrom] at hOut
      split at hOut
      · split_ifs at hOut
        exact ih hNames.2 hOut hTail
      · split_ifs at hOut
        · exact ih hNames.2 hOut hTail
        · exact ih hNames.2 hOut hTail

end Evaluators

end Collect
end Kollect
