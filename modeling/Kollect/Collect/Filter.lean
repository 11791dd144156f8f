import Kollect.Api

/-
  Collection filters: which namespaces a target collects from, and which objects inside them
  (`internal/collect/collection_filter.go`, `filter.go` and `namespace_scope.go`).

  The namespace sets are characterised by:
    * `mem_matchIntentNamespaces_iff`
    * `mem_effectiveNamespaces_iff`
-/

----
-- Filter Data
----

namespace Kollect

namespace Collect

/- Labels and annotations of one existing namespace. -/
structure NamespaceMeta where
  labels : Labels
  annotations : Labels
deriving DecidableEq

/- The metadata of a namespace the cache does not hold. -/
def NamespaceMeta.empty : NamespaceMeta := ⟨∅, ∅⟩

/- Helm-provided include and exclude lists. -/
structure NamespaceDefaults where
  included : List Text
  excluded : List Text
deriving DecidableEq

/- The tenancy guardrail resolved from a scope. -/
structure ScopeCeiling where
  allowedNamespaces : List Text
  deniedNamespaces : List Text
deriving DecidableEq

/- A parsed resource rule. A missing selector is `labels.Everything()`; a missing policy matches. -/
structure CompiledResourceRule where
  rule : ResourceRule
  gvr : GroupVersionResource
  namespaceSel : Option LabelSelector
  resourceSel : Option LabelSelector
  matchPolicyProg : Option Text
deriving DecidableEq

----
-- String Lists
----

/- Membership, as the source loops over the values. -/
def containsString (values : List Text) (want : Text) : Bool := values.any (fun v => v == want)

@[simp] theorem containsString_iff {values : List Text} {want : Text} :
    containsString values want = true ↔ want ∈ values := by
  simp [containsString]

@[simp] theorem containsString_eq_false_iff {values : List Text} {want : Text} :
    containsString values want = false ↔ want ∉ values := by
  rw [Bool.eq_false_iff, ne_eq, containsString_iff]

/-
  One list is returned as it is when the other is empty; otherwise empty texts and repetitions are
  dropped.
-/
def unionStrings (a b : List Text) : List Text :=
  if a.isEmpty then b
  else if b.isEmpty then a
  else ((a ++ b).filter (fun v => v ≠ [])).dedup

theorem mem_unionStrings {a b : List Text} {v : Text} (hNonempty : v ≠ []) :
    v ∈ unionStrings a b ↔ v ∈ a ∨ v ∈ b := by
  unfold unionStrings
  split_ifs with hA hB
  · simp [List.isEmpty_iff.mp hA]
  · simp [List.isEmpty_iff.mp hB]
  · simp [hNonempty]

----
-- Namespace Selection
----

/- A nil selector matches all namespaces. -/
def namespaceMatchesSelector (lib : Libraries) (selector : Option LabelSelector)
    (nsLabels : Labels) : Bool :=
  match selector with
  | none => true
  | some sel => lib.selects sel nsLabels

/- The target's include list, or the Helm default list. -/
def includedOrDefault (filter : CollectionFilterSpec) (defaults : NamespaceDefaults) : List Text :=
  if filter.includedNamespaces.isEmpty then defaults.included
  else filter.includedNamespaces

/- One iteration of the loop of `matchIntentNamespaces`. -/
def matchesIntent (lib : Libraries) (filter : CollectionFilterSpec)
    (namespaceSelector : Option LabelSelector)
    (defaults : NamespaceDefaults) (nsName : Text) (nsLabels : Labels) : Bool :=
  let included := includedOrDefault filter defaults
  let excluded := unionStrings filter.excludedNamespaces defaults.excluded
  if !included.isEmpty && !containsString included nsName then false
  else if !namespaceMatchesSelector lib namespaceSelector nsLabels then
    false
  else if containsString excluded nsName then false
  else
    match filter.namespaceExcludeSelector with
    | none => true
    | some excludeSel => !lib.selects excludeSel nsLabels

/- Workload namespaces matched before the scope ceiling. -/
def matchIntentNamespaces (lib : Libraries) (filter : CollectionFilterSpec)
    (namespaceSelector : Option LabelSelector) (nsMeta : GoMap Text NamespaceMeta)
    (defaults : NamespaceDefaults) : List Text :=
  Text.sortUnique
    ((nsMeta.entries.filter (fun entry =>
      matchesIntent lib filter namespaceSelector defaults entry.1 entry.2.labels)).map Sigma.fst)

/- Apply the ceiling and the deny lists to the matches. -/
def effectiveNamespaces (matched : List Text) (ceiling : ScopeCeiling)
    (filter : CollectionFilterSpec) (defaults : NamespaceDefaults) : List Text :=
  let excluded :=
    unionStrings (unionStrings filter.excludedNamespaces defaults.excluded) ceiling.deniedNamespaces
  let allowed := ceiling.allowedNamespaces
  Text.sortUnique
    (matched.filter (fun ns =>
      !containsString excluded ns && (allowed.isEmpty || containsString allowed ns)))

/- Whether the ceiling bounds the collectible namespaces. -/
def ceilingRestrictsNamespaces (ceiling : ScopeCeiling) : Bool :=
  !ceiling.allowedNamespaces.isEmpty || !ceiling.deniedNamespaces.isEmpty

----
-- What The Filter Fields Say Together
----

/- The target's intent about a namespace carrying `nsLabels`. -/
@[mk_iff] structure PassesIntent
    (lib : Libraries) (filter : CollectionFilterSpec) (namespaceSelector : Option LabelSelector)
    (defaults : NamespaceDefaults) (ns : Text) (nsLabels : Labels) : Prop where
  included : includedOrDefault filter defaults ≠ [] → ns ∈ includedOrDefault filter defaults
  selected : namespaceMatchesSelector lib namespaceSelector nsLabels = true
  notExcluded : ns ∉ filter.excludedNamespaces ∧ ns ∉ defaults.excluded
  notExcludeSelected :
    ∀ sel, filter.namespaceExcludeSelector = some sel → lib.selects sel nsLabels = false

/- The intent together with the scope ceiling. -/
structure PassesFilter
    (lib : Libraries) (filter : CollectionFilterSpec) (namespaceSelector : Option LabelSelector)
    (defaults : NamespaceDefaults) (ceiling : ScopeCeiling)
    (ns : Text) (nsLabels : Labels) : Prop extends
    PassesIntent lib filter namespaceSelector defaults ns nsLabels where
  allowed : ceiling.allowedNamespaces ≠ [] → ns ∈ ceiling.allowedNamespaces
  notDenied : ns ∉ ceiling.deniedNamespaces

section Characterisation

variable {lib : Libraries} {filter : CollectionFilterSpec}
variable {namespaceSelector : Option LabelSelector} {defaults : NamespaceDefaults}
variable {ceiling : ScopeCeiling} {nsMeta : GoMap Text NamespaceMeta} {ns : Text}

theorem matchesIntent_iff {nsLabels : Labels} (hNonempty : ns ≠ []) :
    matchesIntent lib filter namespaceSelector defaults ns
        nsLabels = true ↔ PassesIntent lib filter namespaceSelector defaults ns
        nsLabels := by
  rw [passesIntent_iff]
  unfold matchesIntent
  cases hSel : filter.namespaceExcludeSelector with
  | none | some =>
    simp [mem_unionStrings hNonempty]
    tauto

theorem mem_matchIntentNamespaces_iff :
    ns ∈ matchIntentNamespaces lib filter namespaceSelector nsMeta defaults ↔ ns ≠ [] ∧
        ∃ nsInfo, nsMeta.lookup ns = some nsInfo ∧
          PassesIntent lib filter namespaceSelector defaults ns nsInfo.labels := by
  unfold matchIntentNamespaces
  rw [Text.mem_sortUnique, List.mem_map]
  constructor
  · rintro ⟨⟨⟨name, nsInfo⟩, hEntry, rfl⟩, hNonempty⟩
    rcases List.mem_filter.mp hEntry with ⟨hMem, hMatch⟩
    exact
      ⟨hNonempty, nsInfo, AList.mem_lookup_iff.mpr hMem, (matchesIntent_iff hNonempty).mp hMatch⟩
  · rintro ⟨hNonempty, nsInfo, hLookup, hPass⟩
    refine ⟨⟨⟨ns, nsInfo⟩, ?_, rfl⟩, hNonempty⟩
    exact List.mem_filter.mpr
      ⟨AList.mem_lookup_iff.mp hLookup, (matchesIntent_iff hNonempty).mpr hPass⟩

/-
  The effective namespaces computed from the matches are the existing ones that pass the whole
  filter.
-/
theorem mem_effectiveNamespaces_iff :
    ns ∈ effectiveNamespaces (matchIntentNamespaces lib filter namespaceSelector nsMeta defaults)
        ceiling filter defaults ↔ ns ≠ [] ∧ ∃ nsInfo, nsMeta.lookup ns = some nsInfo ∧
          PassesFilter lib filter namespaceSelector defaults ceiling ns nsInfo.labels := by
  unfold effectiveNamespaces
  rw [Text.mem_sortUnique, List.mem_filter, mem_matchIntentNamespaces_iff]
  constructor
  · rintro ⟨⟨⟨hNonempty, nsInfo, hLookup, hPass⟩, hKeep⟩, _⟩
    simp [mem_unionStrings hNonempty] at hKeep
    exact
      ⟨hNonempty, nsInfo, hLookup, hPass, fun hAllowed => hKeep.2.resolve_left hAllowed, hKeep.1.2⟩
  · rintro ⟨hNonempty, nsInfo, hLookup, hPass⟩
    refine ⟨⟨⟨hNonempty, nsInfo, hLookup, hPass.toPassesIntent⟩, ?_⟩, hNonempty⟩
    simp only [Bool.and_eq_true, Bool.not_eq_true',
      Bool.or_eq_true, List.isEmpty_iff, containsString_iff, containsString_eq_false_iff,
      mem_unionStrings hNonempty, not_or]
    exact ⟨⟨hPass.notExcluded, hPass.notDenied⟩, (em _).imp_right hPass.allowed⟩

end Characterisation

----
-- Resource Rules
----

def gvrFromProfile (lib : Libraries) (gvk : GroupVersionKind) : GroupVersionResource :=
  lib.guess gvk

def indexText (i : Nat) : Text := (toString i).toList

/- A nil selector is `labels.Everything()`. -/
def selectorFromOptional (lib : Libraries) (sel : Option LabelSelector) :
    Except Text (Option LabelSelector) :=
  match sel with
  | none => .ok none
  | some sel =>
    match lib.selectorError sel with
    | none => .ok (some sel)
    | some err => .error err

/- The selector on resource labels of one rule. -/
def resourceLabelSelector (lib : Libraries) (matchLabels : Labels)
    (matchExpressions : List LabelSelectorRequirement) : Except Text (Option LabelSelector) :=
  if matchLabels.entries.isEmpty && matchExpressions.isEmpty then
    .ok none
  else selectorFromOptional lib (some ⟨matchLabels, matchExpressions⟩)

/- The CEL program of one rule, when it has a policy. -/
def compileMatchPolicy (lib : Libraries) (expr : Text) : Except Text (Option Text) :=
  if Text.trimSpace expr = [] then .ok none
  else
    match lib.celCompileError (Text.trimSpace expr) with
    | none => .ok (some (Text.trimSpace expr))
    | some err => .error err

def wrapError {α : Type} (context : Text) (result : Except Text α) : Except Text α :=
  result.mapError (fun err => context ++ ": " ++ err)

/- Validate and compile the rule at index `i`. -/
def compileResourceRule (lib : Libraries) (i : Nat) (rule : ResourceRule) :
    Except Text CompiledResourceRule := do
  let at_ : Text := "resourceRules[" ++ indexText i ++ "]"
  if rule.gvk.version = [] ∨ rule.gvk.kind = [] then
    throw (at_ ++ ".gvk: version and kind are required")
  let nsSel ← wrapError (at_ ++ ".namespaceSelector")
    (selectorFromOptional lib rule.namespaceSelector)
  let resSel ← wrapError at_ (resourceLabelSelector lib rule.matchLabels rule.matchExpressions)
  let prog ← wrapError (at_ ++ ".matchPolicy") (compileMatchPolicy lib rule.matchPolicy)
  return {
    rule := rule
    gvr := gvrFromProfile lib rule.gvk
    namespaceSel := nsSel
    resourceSel := resSel
    matchPolicyProg := prog }

def compileResourceRules (lib : Libraries) (rules : List ResourceRule) :
    Except Text (List CompiledResourceRule) :=
  rules.zipIdx.mapM (fun entry => compileResourceRule lib entry.2 entry.1)

def resourceNamespace (u : Unstructured) : Text :=
  if u.namespace_ = [] then namespaceDefault
  else u.namespace_

variable (lib : Libraries) (u : Unstructured)

def ruleMatches
    (gvr : GroupVersionResource) (nsLabels : Labels) (rule : CompiledResourceRule) : Bool :=
  rule.gvr == gvr &&
    namespaceMatchesSelector lib rule.namespaceSel nsLabels &&
    namespaceMatchesSelector lib rule.resourceSel u.labels &&
    match rule.matchPolicyProg with
    | none => true
    | some prog => lib.celEvalBool prog u.object == some true

/- Names and labels when the target has no resource rules. -/
def resourceMatchesLegacy
    (target : KollectTarget) (profile : KollectProfile) (gvr : GroupVersionResource) : Bool :=
  gvrFromProfile lib profile.spec.targetGVK == gvr &&
    (target.spec.names.isEmpty || containsString target.spec.names u.name) &&
    namespaceMatchesSelector lib target.spec.labelSelector u.labels

/- Whether the object matches any rule, or the fallback. -/
def resourceMatchesRules (gvr : GroupVersionResource) (target : KollectTarget)
    (profile : KollectProfile) (rules : List CompiledResourceRule)
    (nsMeta : GoMap Text NamespaceMeta) : Bool :=
  if rules.isEmpty then resourceMatchesLegacy lib u target profile gvr
  else
    let nsInfo := (nsMeta.lookup (resourceNamespace u)).getD NamespaceMeta.empty
    rules.any (ruleMatches lib u gvr nsInfo.labels)

----
-- Watch Labels
----

def labelWatch : Text := "kollect.dev/watch"
def annotationNamespaceWatch : Text := "kollect.dev/namespace-watch"
def watchValueEnabled : Text := "enabled"
def watchValueDisabled : Text := "disabled"
def watchModeOptIn : Text := "OptIn"

/-
  The opt-in and opt-out labels: the resource's own label decides first, then the namespace's, then
  the watch mode.
-/
def shouldCollect (resourceLabels : Labels) (nsInfo : NamespaceMeta)
    (target : KollectTarget) : Bool :=
  let own := resourceLabels.lookup labelWatch
  let nsLabel := nsInfo.labels.lookup labelWatch
  let nsAnnot := nsInfo.annotations.lookup annotationNamespaceWatch
  if own = some watchValueDisabled then false
  else if own = some watchValueEnabled then true
  else if nsLabel = some watchValueDisabled ∨ nsAnnot = some watchValueDisabled then false
  else if target.spec.watchMode = watchModeOptIn then
    nsLabel = some watchValueEnabled ∨ nsAnnot = some watchValueEnabled
  else true

end Collect

end Kollect
