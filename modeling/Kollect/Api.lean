import Kollect.Foundation.Json

/-
  The API types the collection engine and the admission checks read (`api/v1alpha1`), with the
  Kubernetes types they are built from.

  Fields that no modelled function reads are left out.
-/

----
-- Kubernetes Types
----

namespace Kollect

abbrev Labels := GoMap Text Text

/- One `matchExpressions` entry. -/
structure LabelSelectorRequirement where
  key : Text
  operator : Text
  values : List Text
deriving DecidableEq

structure LabelSelector where
  matchLabels : Labels
  matchExpressions : List LabelSelectorRequirement
deriving DecidableEq

def labelMetadataName : Text := "kubernetes.io/metadata.name"

def namespaceDefault : Text := "default"

structure GroupVersionKind where
  group : Text
  version : Text
  kind : Text
deriving DecidableEq

structure GroupVersionResource where
  group : Text
  version : Text
  resource : Text
deriving DecidableEq

/-
  A collected object: what the metadata accessors of `unstructured.Unstructured` return, and the
  decoded content they read it from.
-/
structure Unstructured where
  namespace_ : Text
  name : Text
  uid : Text
  labels : Labels
  object : List (Text × Json)
deriving DecidableEq

----
-- Object Names
----

def isDnsChar (c : Char) : Bool := c.isLower || c.isDigit || c = '-'

/- Not empty, with a letter or digit at both ends. -/
def isDnsPart (part : Text) : Bool :=
  part.head?.any (fun c => c.isLower || c.isDigit) &&
    part.getLast?.any (fun c => c.isLower || c.isDigit)

/- An RFC 1123 label, the name of a namespace. -/
def isDnsLabel (s : Text) : Bool := decide (s.length ≤ 63) && s.all isDnsChar && isDnsPart s

/- An RFC 1123 subdomain, the name of a custom resource. -/
def isDnsSubdomain (s : Text) : Bool :=
  decide (s.length ≤ 253) && s.all (fun c => isDnsChar c || c = '.') &&
    (s.splitOn '.').all isDnsPart

theorem isDnsPart_ne_nil {part : Text} (hPart : isDnsPart part = true) : part ≠ [] := by
  rintro rfl
  cases hPart

variable {s : Text}

theorem isDnsLabel_mem (hLabel : isDnsLabel s = true) : s ≠ [] ∧ ∀ c ∈ s, isDnsChar c = true := by
  simp only [isDnsLabel, Bool.and_eq_true, List.all_eq_true] at hLabel
  exact ⟨isDnsPart_ne_nil hLabel.2, hLabel.1.2⟩

theorem slash_notMem_of_isDnsLabel {ns : Text} (hLabel : isDnsLabel ns = true) : '/' ∉ ns := by
  intro hMem
  have hChar := (isDnsLabel_mem hLabel).2 '/' hMem
  exact absurd hChar (by decide)

theorem head_isDnsSubdomain (hName : isDnsSubdomain s = true) : s.head? ≠ some '.' := by
  intro hHead
  cases s with
  | nil => cases hHead
  | cons c s =>
    have hDot : c = '.' := Option.some.inj hHead
    rw [hDot] at hName
    simp [isDnsSubdomain, isDnsPart, List.splitOn, List.splitOnP_cons_eq_if_modifyHead] at hName

theorem isDnsSubdomain_mem (hName : isDnsSubdomain s = true) :
    s ≠ [] ∧ ∀ c ∈ s, isDnsChar c = true ∨ c = '.' := by
  simp only [isDnsSubdomain, Bool.and_eq_true, List.all_eq_true, Bool.or_eq_true,
    decide_eq_true_eq] at hName
  refine ⟨?_, hName.1.2⟩
  rintro rfl
  have hPart := hName.2 [] (by simp)
  cases hPart

----
-- Targets
----

structure ResourceRule where
  gvk : GroupVersionKind
  namespaceSelector : Option LabelSelector
  matchLabels : Labels
  matchExpressions : List LabelSelectorRequirement
  matchPolicy : Text
deriving DecidableEq

structure CollectionFilterSpec where
  includedNamespaces : List Text
  excludedNamespaces : List Text
  namespaceExcludeSelector : Option LabelSelector
  resourceRules : List ResourceRule
deriving DecidableEq

structure KollectTargetSpec where
  profileRef : Text
  namespaceSelector : Option LabelSelector
  collectionFilter : CollectionFilterSpec
  labelSelector : Option LabelSelector
  names : List Text
  suspend : Bool
  watchMode : Text
deriving DecidableEq

structure KollectTarget where
  namespace_ : Text
  name : Text
  generation : Int
  spec : KollectTargetSpec
deriving DecidableEq

/- A target of the platform team for many namespaces. -/
structure KollectClusterTarget where
  name : Text
  profileRef : Text
  namespaceSelector : Option LabelSelector
  collectionFilter : CollectionFilterSpec

----
-- Profiles
----

structure AttributeSpec where
  name : Text
  path : Text
  optional : Bool
deriving DecidableEq

structure KollectProfileSpec where
  targetGVK : GroupVersionKind
  attributes : List AttributeSpec
deriving DecidableEq

structure KollectProfile where
  name : Text
  generation : Int
  annotations : Labels
  spec : KollectProfileSpec
deriving DecidableEq

----
-- Third-Party Functions
----

/-
  The library functions the collection engine calls, as the values they return.

  `selects sel labels` is whether `sel` parses and matches `labels`; `selectorError` is the parse
  error. `guess` is `meta.UnsafeGuessKindToResource`.
-/
structure Libraries where
  selects : LabelSelector → Labels → Bool
  selectorError : LabelSelector → Option Text
  guess : GroupVersionKind → GroupVersionResource
  celCompileError : Text → Option Text
  celEvalBool : Text → List (Text × Json) → Option Bool

/-
  Library functions to evaluate the model with: selectors without expressions, plurals in `s`,
  constant policies.
-/
def Libraries.plain : Libraries where
  selects sel labels :=
    sel.matchLabels.entries.all (fun entry => labels.lookup entry.1 == some entry.2)
  selectorError _ := none
  guess gvk := ⟨gvk.group, gvk.version, gvk.kind.map Char.toLower ++ ['s']⟩
  celCompileError _ := none
  celEvalBool _ _ := some true

end Kollect
