import Kollect.Sink.Identity
import Kollect.Sink.Layout

/-
  The merge-request branch of an inventory (`sink/gitlab/mr.go`, `sink/gitlab/backend.go`,
  `sink/export.go`, `sink/cleanup.go`).

  An export pushes to the branch that is named after the namespace and the name it reads from the
  document path; a release names the branch after the inventory. The document path is rendered from
  the path template, with the part marker in the name, and is read by its first two segments for a
  JSON document and by its last two otherwise.

  The two branches agree when the rendered path has the inventory in the place where it is looked
  for.

  Key theorems include:
    * `branchNameForExport_injective`
    * `pushedBranch_eq_iff`
-/

namespace Kollect
namespace Sink
namespace Gitlab

open Export

----
-- Branch Names
----

def defaultBranchPrefix : Text := "kollect"

def clusterInventoryBranchSegment : Text := "_cluster"

/- Without white space, and then without slashes, around. -/
def trimBranchPart (s : Text) : Text := Text.trimFunc (fun c => c = '/') (Text.trimSpace s)

/- The namespace segment of a branch. -/
def branchNamespace (kind : Option InventoryKind) (inventoryNamespace : Text) : Text :=
  let ns := trimBranchPart inventoryNamespace
  if kind = some .cluster ∨ kind = none ∧ ns = clusterInventoryPathNamespace then
    clusterInventoryBranchSegment
  else ns

variable (branchPrefix : Text)

/- A kind is missing when there is no identity. -/
def branchNameForExport (kind : Option InventoryKind)
    (inventoryNamespace inventoryName : Text) : Text :=
  let p :=
    if trimBranchPart branchPrefix = [] then defaultBranchPrefix
    else trimBranchPart branchPrefix
  p ++ '/' :: (branchNamespace kind inventoryNamespace ++ '/' :: trimBranchPart inventoryName)

----
-- Exporting And Releasing
----

/- The canonical envelope is written as it is. -/
def isJsonDocument (r : ResolvedLayout) : Bool := r.isDocument && decide (r.format = .json)

/- The identity that an export reads from its path. -/
def exportedIdentity (r : ResolvedLayout) : Text × Text :=
  if isJsonDocument r then PathValidate.inventoryFromObjectPath r.documentPath
  else ObjectStore.inventoryFromObjectPath r.documentPath

variable (spec : KollectSinkSpec) (hints : LayoutHints)

/-
  The branch the export of part `index` of `total` pushes to. A part's envelope carries its place
  only when there is more than one part.
-/
def pushedBranch (id : InventoryIdentity) (generation : Int)
    (index total : Nat) : Except IdentityError Text := do
  let objectPath := partitionObjectPath id.objectPath index total
  let (invNS, invName) := ObjectStore.inventoryFromObjectPath objectPath
  id.checkObjectPath invNS invName (if total ≤ 1 then 0 else index) (if total ≤ 1 then 0 else total)
  let resolved := resolve spec invNS invName generation hints
  let (ns, name) := exportedIdentity resolved
  pure (branchNameForExport branchPrefix (some id.kind) ns name)

/- The branch a release retracts from. -/
def releaseBranch (id : InventoryIdentity) : Text :=
  let (invNS, invName) := ObjectStore.inventoryFromObjectPath id.objectPath
  branchNameForExport branchPrefix (some id.kind) invNS invName

----
-- Names In Branches
----

theorem trimBranchPart_of_noSlash {s : Text} (hS : '/' ∉ s) :
    trimBranchPart s = Text.trimSpace s := by
  refine Text.trimFunc_eq_self fun c hC => ?_
  have hNe : c ≠ '/' := by
    rintro rfl
    exact hS (Text.mem_of_mem_trimFunc hC)
  simpa using hNe

theorem slash_notMem_branchNamespace (kind : Option InventoryKind) {ns : Text} (hNs : '/' ∉ ns) :
    '/' ∉ branchNamespace kind ns := by
  unfold branchNamespace
  dsimp only
  split_ifs
  · decide
  · rw [trimBranchPart_of_noSlash hNs]
    exact fun hMem => hNs (Text.mem_of_mem_trimFunc hMem)

/- A branch determines its namespace and name segments. -/
theorem branchNameForExport_eq_iff {branchPrefix : Text} {kind kind' : Option InventoryKind}
    {ns ns' name name' : Text} (hNs : '/' ∉ ns)
    (hNs' : '/' ∉ ns') (hName : '/' ∉ name) (hName' : '/' ∉ name') :
    branchNameForExport branchPrefix kind ns name =
        branchNameForExport branchPrefix kind' ns' name' ↔
      branchNamespace kind ns = branchNamespace kind' ns' ∧
        Text.trimSpace name = Text.trimSpace name' := by
  unfold branchNameForExport
  rw [List.append_right_inj, List.cons_inj_right,
    Text.append_sep_inj (slash_notMem_branchNamespace kind hNs)
      (slash_notMem_branchNamespace kind' hNs'),
    trimBranchPart_of_noSlash hName, trimBranchPart_of_noSlash hName']

section Names

variable (inv : Inventory)

theorem branchNamespace_of_namespaced (hKind : inv.kind = .namespaced) :
    branchNamespace (some .namespaced) inv.namespace_ = inv.namespace_ := by
  have hPath : inv.pathNamespace = inv.namespace_ := by
    simp [InventoryIdentity.pathNamespace, hKind]
  obtain ⟨-, hRunes⟩ := inv.namespace_runes
  have hSlash : '/' ∉ inv.pathNamespace := inv.namespace_notMem (by decide)
  rw [hPath] at hRunes hSlash
  simp only [branchNamespace, trimBranchPart_of_noSlash hSlash,
    trimSpace_of_isPathRune (fun c hC => isPathRune_of_isDnsChar (hRunes c hC))]
  simp

theorem branchNamespace_eq_iff {ns : Text} (hNs : '/' ∉ ns) :
    branchNamespace (some inv.kind) ns = branchNamespace (some inv.kind) inv.namespace_ ↔
      inv.kind = .cluster ∨ Text.trimSpace ns = inv.namespace_ := by
  cases hKind : inv.kind with
  | cluster => simp [branchNamespace]
  | namespaced =>
    rw [branchNamespace_of_namespaced inv hKind]
    simp [branchNamespace, trimBranchPart_of_noSlash hNs]

theorem slash_notMem_namespace : '/' ∉ inv.namespace_ := by
  have hValid := inv.validNamespace
  cases hKind : inv.kind with
  | cluster =>
    rw [hKind] at hValid
    simp [hValid]
  | namespaced =>
    have hSlash : '/' ∉ inv.pathNamespace := inv.namespace_notMem (by decide)
    simpa [InventoryIdentity.pathNamespace, hKind] using hSlash

/- Different inventories have different branches. -/
theorem branchNameForExport_injective {branchPrefix : Text} {inv inv' : Inventory}
    (hEq : branchNameForExport branchPrefix (some inv.kind) inv.namespace_ inv.name =
        branchNameForExport branchPrefix (some inv'.kind) inv'.namespace_ inv'.name) :
    inv.toInventoryIdentity = inv'.toInventoryIdentity := by
  obtain ⟨hNamespace, hName⟩ := (branchNameForExport_eq_iff (slash_notMem_namespace inv)
      (slash_notMem_namespace inv') (inv.name_notMem (by decide) (by decide))
      (inv'.name_notMem (by decide) (by decide))).mp hEq
  rw [trimSpace_of_isPathRune inv.name_pathRunes,
    trimSpace_of_isPathRune inv'.name_pathRunes] at hName
  have hValid := inv.validNamespace
  have hValid' := inv'.validNamespace
  -- No namespace is spelled like the cluster segment.
  have hNoClash : ∀ inv : Inventory, inv.kind = .namespaced →
      inv.namespace_ ≠ clusterInventoryBranchSegment := by
    intro inv hKind hClash
    have hMem : '_' ∉ inv.pathNamespace := inv.namespace_notMem (by decide)
    rw [InventoryIdentity.pathNamespace, hKind] at hMem
    simp only [hClash] at hMem
    exact hMem (by decide)
  have hCluster : ∀ ns, branchNamespace (some .cluster) ns = clusterInventoryBranchSegment := by
    simp [branchNamespace]
  cases hKind : inv.kind <;> cases hKind' : inv'.kind <;>
    rw [hKind] at hNamespace hValid <;>
    rw [hKind'] at hNamespace hValid'
  · rw [branchNamespace_of_namespaced inv hKind,
      branchNamespace_of_namespaced inv' hKind'] at hNamespace
    rw [InventoryIdentity.mk.injEq, hKind, hKind']
    exact ⟨rfl, hNamespace, hName⟩
  · rw [branchNamespace_of_namespaced inv hKind, hCluster] at hNamespace
    exact absurd hNamespace (hNoClash inv hKind)
  · rw [branchNamespace_of_namespaced inv' hKind', hCluster] at hNamespace
    exact absurd hNamespace.symm (hNoClash inv' hKind')
  · rw [InventoryIdentity.mk.injEq, hKind, hKind']
    exact ⟨rfl, hValid.trans hValid'.symm, hName⟩

end Names

----
-- The Branch Of A Part
----

def partLayout (id : InventoryIdentity) (generation : Int) (index total : Nat) : ResolvedLayout :=
  resolve spec id.pathNamespace (id.name ++ partMarker index total) generation hints

/-
  The document path has the inventory where it is looked for: in its first two segments, or in its
  last two. A cluster inventory is told by its name alone.
-/
def DocumentPathNames (r : ResolvedLayout) (id : InventoryIdentity) : Prop :=
  ∃ ns name,
    (if isJsonDocument r then PathValidate.BeginsWithIdentity r.documentPath ns name
    else ObjectStore.EndsInIdentity r.documentPath ns name) ∧
    Text.trimSpace name = id.name ∧
    (id.kind = .cluster ∨ Text.trimSpace ns = id.namespace_)

theorem slash_notMem_exportedIdentity (r : ResolvedLayout) :
    '/' ∉ (exportedIdentity r).1 ∧ '/' ∉ (exportedIdentity r).2 := by
  unfold exportedIdentity
  split_ifs
  · exact PathValidate.slash_notMem_inventoryFromObjectPath _
  · exact ObjectStore.slash_notMem_inventoryFromObjectPath _

theorem exportedIdentity_eq_iff {r : ResolvedLayout} {ns name : Text} (hName : name ≠ []) :
    exportedIdentity r = (ns, name) ↔
      if isJsonDocument r then PathValidate.BeginsWithIdentity r.documentPath ns name
      else ObjectStore.EndsInIdentity r.documentPath ns name := by
  unfold exportedIdentity
  split_ifs
  · exact PathValidate.inventoryFromObjectPath_eq_iff hName
  · exact ObjectStore.inventoryFromObjectPath_eq_iff hName

theorem pushedBranch_eq (inv : Inventory) (generation : Int)
    {index total : Nat} (hIndex : 1 ≤ index) (hTotal : index ≤ total) :
    pushedBranch branchPrefix spec hints inv.toInventoryIdentity generation index total =
      .ok (branchNameForExport branchPrefix (some inv.kind)
        (exportedIdentity (partLayout spec hints inv.toInventoryIdentity generation index total)).1
        (exportedIdentity (partLayout spec hints
          inv.toInventoryIdentity generation index total)).2) := by
  unfold pushedBranch
  simp only [inv.fromObjectPath_part index total, inv.checkObjectPath_part hIndex hTotal]
  rfl

theorem releaseBranch_eq (inv : Inventory) : releaseBranch branchPrefix inv.toInventoryIdentity =
      branchNameForExport branchPrefix (some inv.kind) inv.namespace_ inv.name := by
  have hRead := inv.fromObjectPath_part 1 1
  rw [partitionObjectPath, if_pos (Nat.le_refl 1)] at hRead
  rw [releaseBranch, hRead]
  have hName : '/' ∉ inv.name := inv.name_notMem (by decide) (by decide)
  have hMarker : inv.name ++ partMarker 1 1 = inv.name := by simp [partMarker]
  rw [hMarker]
  refine (branchNameForExport_eq_iff (inv.namespace_notMem (by decide))
    (slash_notMem_namespace inv) hName hName).mpr ⟨?_, rfl⟩
  rw [branchNamespace_eq_iff inv (inv.namespace_notMem (by decide))]
  cases hKind : inv.kind with
  | cluster => exact .inl rfl
  | namespaced =>
    right
    obtain ⟨-, hRunes⟩ := inv.namespace_runes
    rw [trimSpace_of_isPathRune fun c hC => isPathRune_of_isDnsChar (hRunes c hC)]
    simp [InventoryIdentity.pathNamespace, hKind]

/-
  A part is pushed to the inventory's own branch, the one a release retracts from, exactly when the
  rendered document path names the inventory; no other inventory has it.
-/
theorem pushedBranch_eq_iff (branchPrefix : Text) (spec : KollectSinkSpec)
    (hints : LayoutHints) (inv : Inventory) (generation : Int)
    (index total : Nat) (hIndex : 1 ≤ index) (hTotal : index ≤ total) :
    (pushedBranch branchPrefix spec hints inv.toInventoryIdentity generation index total =
        .ok (branchNameForExport branchPrefix (some inv.kind) inv.namespace_ inv.name) ↔
      DocumentPathNames (partLayout spec hints inv.toInventoryIdentity generation index total)
        inv.toInventoryIdentity) ∧ releaseBranch branchPrefix inv.toInventoryIdentity =
      branchNameForExport branchPrefix (some inv.kind) inv.namespace_ inv.name ∧
    ∀ inv' : Inventory, branchNameForExport branchPrefix (some inv.kind) inv.namespace_ inv.name =
        branchNameForExport branchPrefix (some inv'.kind) inv'.namespace_ inv'.name →
      inv.toInventoryIdentity = inv'.toInventoryIdentity := by
  refine ⟨?_, releaseBranch_eq branchPrefix inv, fun inv' hEq => branchNameForExport_injective hEq⟩
  rw [pushedBranch_eq branchPrefix spec hints inv generation hIndex hTotal]
  set r := partLayout spec hints inv.toInventoryIdentity generation index total
  obtain ⟨hNs, hName⟩ := slash_notMem_exportedIdentity r
  rw [Except.ok.injEq, branchNameForExport_eq_iff hNs (slash_notMem_namespace inv) hName
    (inv.name_notMem (by decide) (by decide)), branchNamespace_eq_iff inv hNs,
    trimSpace_of_isPathRune inv.name_pathRunes]
  have hNotNil : ∀ name : Text, Text.trimSpace name = inv.name → name ≠ [] := by
    rintro name hTrim rfl
    exact inv.name_runes.1 (hTrim.symm.trans rfl)
  constructor
  · rintro ⟨hNamespace, hTrim⟩
    exact ⟨_, _, (exportedIdentity_eq_iff (hNotNil _ hTrim)).mp rfl, hTrim, hNamespace⟩
  · rintro ⟨ns, name, hRead, hTrim, hNamespace⟩
    rw [(exportedIdentity_eq_iff (hNotNil _ hTrim)).mpr hRead]
    exact ⟨hNamespace, hTrim⟩

def teamInventory (team : Text) (hTeam : isDnsLabel team = true) : Inventory where
  kind := .namespaced
  namespace_ := team
  name := "app"
  validNamespace := hTeam
  validName := by decide

def templateSpec (pathTemplate : Text) : KollectSinkSpec where
  type := .gitlab
  cluster := []
  pathTemplate := pathTemplate
  serialization := none
  objectStoreFormat := none
  layout := none

def noHints : LayoutHints := ⟨false, []⟩

theorem single_part_of_default_template :
    pushedBranch [] (templateSpec []) noHints (teamInventory "blue" (by decide)).toInventoryIdentity
        7 1 1 =
      .ok "kollect/blue/app".toList ∧
    DocumentPathNames (partLayout (templateSpec []) noHints
        (teamInventory "blue" (by decide)).toInventoryIdentity 7 1 1)
      (teamInventory "blue" (by decide)).toInventoryIdentity :=
  ⟨by decide +kernel, (pushedBranch_eq_iff [] (templateSpec []) noHints
      (teamInventory "blue" (by decide)) 7 1 1 (by decide) (by decide)).1.mp (by decide +kernel)⟩

/-
  Two parts of one set on two branches that no release retracts from, and two inventories on one
  branch.
-/
theorem parts_split_and_inventories_share : ObjectStore.validatePathTemplate [] = .ok () ∧
    pushedBranch [] (templateSpec []) noHints (teamInventory "blue" (by decide)).toInventoryIdentity
        7 1 2 =
      .ok "kollect/blue/app.part-0001-of-0002".toList ∧
    pushedBranch [] (templateSpec []) noHints (teamInventory "blue" (by decide)).toInventoryIdentity
        7 2 2 =
      .ok "kollect/blue/app.part-0002-of-0002".toList ∧
    releaseBranch [] (teamInventory "blue" (by decide)).toInventoryIdentity =
      "kollect/blue/app".toList ∧
    ObjectStore.validatePathTemplate "{namespace}/data/{name}.yaml" = .ok () ∧
    pushedBranch [] (templateSpec "{namespace}/data/{name}.yaml") noHints
        (teamInventory "blue" (by decide)).toInventoryIdentity 7 1 1 =
      .ok "kollect/data/app".toList ∧
    pushedBranch [] (templateSpec "{namespace}/data/{name}.yaml") noHints
        (teamInventory "red" (by decide)).toInventoryIdentity 7 1 1 =
      .ok "kollect/data/app".toList := by
  decide +kernel

end Gitlab
end Sink
end Kollect
