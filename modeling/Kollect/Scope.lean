import Kollect.Collect.Filter

/-
  Tenancy scopes: which scope applies in a namespace, and the checks of a target against it
  (`internal/scope/scope.go`, `internal/scope/collection.go`, `internal/scope/cluster.go`).
-/

namespace Kollect

open Collect

/- The allow and deny lists of a tenant namespace. -/
structure KollectScope where
  name : Text
  allowedNamespaces : List Text
  deniedNamespaces : List Text
  allowedGVKs : List GroupVersionKind

namespace Scope

----
-- Loading
----

/- The scope with the least name; the first of equal ones. -/
def oldestByName (first : KollectScope) (rest : List KollectScope) : KollectScope :=
  rest.foldl
    (fun scope item => if item.name < scope.name then item else scope)
    first

/- `scope.Load`, from what the list call returns: the scope that is enforced, if there is one. -/
def load (namespace_ : Text) (listed : Except Text (List KollectScope)) :
    Except Text (Option KollectScope) :=
  match listed with
  | .error err => .error ("list KollectScope in namespace \"" ++ namespace_ ++ "\": " ++ err)
  | .ok [] => .ok none
  | .ok (first :: rest) => .ok (some (oldestByName first rest))

variable (scope : KollectScope)

def ceiling : ScopeCeiling :=
  ⟨scope.allowedNamespaces, scope.deniedNamespaces⟩

/- The scope lets objects of the namespace be collected. -/
def Permits (ns : Text) : Prop :=
  ns ∉ scope.deniedNamespaces ∧ (scope.allowedNamespaces ≠ [] → ns ∈ scope.allowedNamespaces)

instance (scope : KollectScope) (ns : Text) : Decidable (Permits scope ns) :=
  inferInstanceAs (Decidable (_ ∧ _))

----
-- Namespace Checks
----

/- A message about a namespace and one list of the scope. -/
def namespaceMessage (ns relation list : Text) : Text :=
  "workload namespace \"" ++ ns ++ "\" " ++ relation ++
    " KollectScope \"" ++ scope.name ++ "\" " ++ list

def validateDeniedNamespaces (namespaces : List Text) : Except Text Unit :=
  Fallible.checkAll
    (fun ns =>
      if ns ∈ scope.deniedNamespaces then
        .error (namespaceMessage scope ns "is in" "deniedNamespaces")
      else .ok ())
    namespaces

def validateWorkloadNamespaces (namespaces : List Text) : Except Text Unit :=
  if scope.allowedNamespaces.isEmpty then .ok ()
  else
    Fallible.checkAll
      (fun ns =>
        if ns ∈ scope.allowedNamespaces then .ok ()
        else .error (namespaceMessage scope ns "is not in" "allowedNamespaces"))
      namespaces

def validateTargetIncludedNamespaces (namespaces : List Text) : Except Text Unit := do
  validateDeniedNamespaces scope namespaces
  validateWorkloadNamespaces scope namespaces

----
-- Resource Checks
----

/- The fields of a resource are compared without case. -/
def gvkMatches (allowed got : GroupVersionKind) : Bool :=
  Text.equalFold allowed.group got.group && Text.equalFold allowed.version got.version &&
    Text.equalFold allowed.kind got.kind

def validateTargetGVK (gvk : GroupVersionKind) : Except Text Unit :=
  if scope.allowedGVKs.isEmpty || scope.allowedGVKs.any (fun allowed => gvkMatches allowed gvk) then
    .ok ()
  else
    .error ("target GVK " ++ gvk.group ++ "/" ++ gvk.version ++ "/" ++
        gvk.kind ++ " is not in KollectScope \"" ++ scope.name ++ "\" allowedGVKs")

/- The resources of the rules, or else of the profile. -/
def collectRuleGVKs (filter : CollectionFilterSpec)
    (profileGVK : GroupVersionKind) : List GroupVersionKind :=
  if filter.resourceRules.isEmpty then [profileGVK]
  else filter.resourceRules.map ResourceRule.gvk

def validateResourceRuleGVKs (gvks : List GroupVersionKind) : Except Text Unit :=
  Fallible.checkAll (validateTargetGVK scope) gvks

end Scope

----
-- Cluster Scopes
----

structure KollectClusterScope where
  name : Text
  allowedNamespaces : List Text
  deniedNamespaces : List Text
  allowedGVKs : List GroupVersionKind
  allowedStaticRefNamespaces : List Text

namespace ClusterScope

/-
  `scope.LoadCluster`, from what the list call returns: the scope with the least name, the first of
  equal ones.
-/
def loadCluster (listed : Except Text (List KollectClusterScope)) :
    Except Text (Option KollectClusterScope) :=
  match listed with
  | .error err => .error ("list KollectClusterScope: " ++ err)
  | .ok [] => .ok none
  | .ok (first :: rest) =>
    .ok (some (rest.foldl (fun scope item => if item.name < scope.name then item else scope)
      first))

def ceiling (scope : KollectClusterScope) : ScopeCeiling :=
  ⟨scope.allowedNamespaces, scope.deniedNamespaces⟩

def validateStaticRefNamespace (scope : KollectClusterScope) (ns : Text) : Except Text Unit :=
  if scope.allowedStaticRefNamespaces.isEmpty ||
      scope.allowedStaticRefNamespaces.contains (Text.trimSpace ns) then
    .ok ()
  else
    .error ("static ref namespace \"" ++ Text.trimSpace ns ++
        "\" is not in KollectClusterScope \"" ++ scope.name ++ "\" allowedStaticRefNamespaces")

def validateGVKs (scope : KollectClusterScope) (gvk : GroupVersionKind) : Except Text Unit :=
  if scope.allowedGVKs.isEmpty ||
      scope.allowedGVKs.any (fun allowed => Scope.gvkMatches allowed gvk) then
    .ok ()
  else
    .error ("target GVK " ++ gvk.group ++ "/" ++ gvk.version ++ "/" ++
        gvk.kind ++ " is not in KollectClusterScope \"" ++ scope.name ++ "\" allowedGVKs")

end ClusterScope
end Kollect
