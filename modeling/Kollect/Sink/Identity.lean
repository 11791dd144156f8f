import Kollect.Api
import Kollect.Export.Partition
import Kollect.Sink.ObjectPath

/-
  The identity of an exporting inventory (`sink/identity.go`, `sink/layout_export.go`).

  An export request names its inventory and carries an object path; the two must agree. The path of
  part `i` of `n` is the inventory's path with a part marker before the extension.

  Key theorems include:
    * `Inventory.fromObjectPath_filePath`
    * `Inventory.checkObjectPath_part`
-/

namespace Kollect
namespace Sink

open Export

----
-- Identities
----

inductive InventoryKind where
  | namespaced
  | cluster
deriving DecidableEq, Repr

/- The namespace is empty for a cluster inventory. -/
structure InventoryIdentity where
  kind : InventoryKind
  namespace_ : Text
  name : Text
deriving DecidableEq, Repr

inductive IdentityError where
  | noValidName
  | needsNamespace
  | hasNamespace
  | pathMismatch (ns base : Text)
deriving DecidableEq, Repr

def clusterInventoryPathNamespace : Text := "cluster"

/- Not blank, and without white space around it. -/
def isTrimmed (s : Text) : Bool := Text.trimSpace s ≠ [] && decide (s = Text.trimSpace s)

/- Strip the suffix of this part, and only that one. -/
def baseInventoryName (name : Text) (partIndex partTotal : Nat) : Text :=
  if partTotal ≤ 1 ∨ partIndex < 1 ∨ partTotal < partIndex then name
  else Text.trimEnd name (partSuffix partIndex partTotal)

namespace InventoryIdentity

variable (id : InventoryIdentity)

def validate : Except IdentityError Unit :=
  if isTrimmed id.name = false then .error .noValidName
  else
    match id.kind with
    | .namespaced =>
      if isTrimmed id.namespace_ then .ok ()
      else .error .needsNamespace
    | .cluster =>
      if id.namespace_ = [] then .ok ()
      else .error .hasNamespace

/- The namespace segment of the object path. -/
def pathNamespace : Text :=
  match id.kind with
  | .cluster => clusterInventoryPathNamespace
  | .namespaced => id.namespace_

/- The path the controllers export an inventory at. -/
def objectPath : Text :=
  ("inventory" : Text) ++ '/' :: (id.pathNamespace ++ '/' :: (id.name ++ '.' :: ("json" : Text)))

/- The path read back must be the identity's. -/
def checkObjectPath (pathNS pathName : Text)
    (partIndex partTotal : Nat) : Except IdentityError Unit := do
  id.validate
  let base := baseInventoryName pathName partIndex partTotal
  if pathNS ≠ id.pathNamespace ∨ base ≠ id.name then .error (.pathMismatch pathNS base)
  else .ok ()

end InventoryIdentity

/- An inventory of a cluster has valid object names. -/
structure Inventory extends InventoryIdentity where
  validNamespace :
    match kind with
    | .namespaced => isDnsLabel namespace_ = true
    | .cluster => namespace_ = []
  validName : isDnsSubdomain name = true

----
-- Runes Of Object Paths
----

def isPathRune (c : Char) : Bool := isDnsChar c || c = '.' || c = '/'

variable {c : Char}

theorem isDnsChar_range (hC : isDnsChar c = true) : 0x2d ≤ c.toNat ∧ c.toNat ≤ 0x7a := by
  have hLower : c.isLower = true → 97 ≤ c.toNat ∧ c.toNat ≤ 122 := fun hLower =>
    (Bool.and_eq_true_iff.mp hLower).imp of_decide_eq_true of_decide_eq_true
  have hDigit : c.isDigit = true → 48 ≤ c.toNat ∧ c.toNat ≤ 57 := fun hDigit =>
    (Bool.and_eq_true_iff.mp hDigit).imp of_decide_eq_true of_decide_eq_true
  simp only [isDnsChar, Bool.or_eq_true, decide_eq_true_eq] at hC
  rcases hC with (hC | hC) | rfl
  · have hRange := hLower hC
    omega
  · have hRange := hDigit hC
    omega
  · decide

theorem isSpace_of_isPathRune (hC : isPathRune c = true) : Text.isSpace c = false := by
  have hRange : 0x2d ≤ c.toNat ∧ c.toNat ≤ 0x7a := by
    simp only [isPathRune, Bool.or_eq_true, decide_eq_true_eq] at hC
    rcases hC with (hDns | rfl) | rfl
    · exact isDnsChar_range hDns
    · decide
    · decide
  have hNotListed : c.toNat ∉ [0x09, 0x0a, 0x0b, 0x0c, 0x0d,
      0x20, 0x85, 0xa0, 0x1680, 0x2028, 0x2029, 0x202f, 0x205f, 0x3000] := by
    simp only [List.mem_cons, List.not_mem_nil, or_false, not_or]
    omega
  have hLow : ¬ 0x2000 ≤ c.toNat := by omega
  simp [Text.isSpace, hNotListed, hLow]

theorem trimSpace_of_isPathRune {s : Text} (hS : ∀ c ∈ s, isPathRune c = true) :
    Text.trimSpace s = s :=
  Text.trimFunc_eq_self fun c hC => isSpace_of_isPathRune (hS c hC)

theorem isPathRune_of_isDnsChar (hC : isDnsChar c = true) : isPathRune c = true := by
  simp [isPathRune, hC]

theorem isPathRune_partMarker {index total : Nat} (hC : c ∈ partMarker index total) :
    isPathRune c = true := by
  rcases mem_partMarker hC with hDigit | hOther
  · simp [isPathRune, isDnsChar, hDigit]
  · have hRunes : (".part-of" : Text).all isPathRune = true := by decide
    exact List.all_eq_true.mp hRunes c hOther

----
-- Object Paths Of An Inventory
----

namespace Inventory

variable (inv : Inventory)

def inventoryDir : Text := "inventory/"

theorem namespace_runes : inv.pathNamespace ≠ [] ∧ ∀ c ∈ inv.pathNamespace, isDnsChar c = true := by
  have hValid := inv.validNamespace
  unfold InventoryIdentity.pathNamespace
  cases hKind : inv.kind with
  | cluster =>
    have hRunes : clusterInventoryPathNamespace.all isDnsChar = true := by decide
    have hNe : clusterInventoryPathNamespace ≠ [] := by decide
    exact ⟨hNe, List.all_eq_true.mp hRunes⟩
  | namespaced =>
    rw [hKind] at hValid
    exact isDnsLabel_mem hValid

theorem name_runes : inv.name ≠ [] ∧ ∀ c ∈ inv.name, isDnsChar c = true ∨ c = '.' :=
  isDnsSubdomain_mem inv.validName

theorem namespace_notMem (hC : isDnsChar c = false) : c ∉ inv.pathNamespace := by
  intro hMem
  rw [inv.namespace_runes.2 c hMem] at hC
  cases hC

theorem name_notMem (hC : isDnsChar c = false) (hDot : c ≠ '.') : c ∉ inv.name := by
  intro hMem
  rcases inv.name_runes.2 c hMem with hDns | rfl
  · rw [hDns] at hC
    cases hC
  · exact hDot rfl

theorem name_pathRunes : ∀ c ∈ inv.name, isPathRune c = true := by
  intro c hC
  rcases inv.name_runes.2 c hC with hDns | rfl
  · exact isPathRune_of_isDnsChar hDns
  · decide

theorem namespace_plain : Path.Plain inv.pathNamespace := by
  have hDot : '.' ∉ inv.pathNamespace := inv.namespace_notMem (by decide)
  refine ⟨inv.namespace_runes.1, ?_, ?_⟩ <;> intro hEq <;>
    rw [hEq] at hDot <;> simp at hDot

theorem partitionObjectPath_objectPath (index total : Nat) :
    partitionObjectPath inv.objectPath index total = ("inventory" : Text) ++ '/' ::
        (inv.pathNamespace ++ '/' ::
          (inv.name ++ partMarker index total ++ '.' :: ("json" : Text))) :=
  partitionObjectPath_eq (by decide) ⟨by decide, by decide, by decide⟩
    (inv.namespace_notMem (by decide)) inv.namespace_plain
    (inv.name_notMem (by decide) (by decide)) inv.name_runes.1 (by decide) (by decide) index total

section Files

variable (index total : Nat) {ext : Text}

def fileName (ext : Text) : Text := inv.name ++ partMarker index total ++ '.' :: ext

def filePath (ext : Text) : Text :=
  inventoryDir ++ (inv.pathNamespace ++ '/' :: inv.fileName index total ext)

variable (hExt : ∀ c ∈ ext, isDnsChar c = true)

include hExt in
theorem slash_notMem_fileName : '/' ∉ inv.fileName index total ext := by
  have hName : '/' ∉ inv.name := inv.name_notMem (by decide) (by decide)
  have hMarker := slash_notMem_partMarker index total
  have hNotExt : '/' ∉ ext := fun hMem => absurd (hExt '/' hMem) (by decide)
  simp [fileName, hName, hMarker, hNotExt]

include hExt in
theorem filePath_runes : ∀ c ∈ inv.filePath index total ext, isPathRune c = true := by
  have hDir : inventoryDir.all isPathRune = true := by decide
  intro c hC
  simp only [filePath, fileName, List.mem_append, List.mem_cons] at hC
  rcases hC with hC | hC | rfl | (hC | hC) | rfl | hC
  · exact List.all_eq_true.mp hDir c hC
  · exact isPathRune_of_isDnsChar (inv.namespace_runes.2 c hC)
  · decide
  · exact inv.name_pathRunes c hC
  · exact isPathRune_partMarker hC
  · decide
  · exact isPathRune_of_isDnsChar (hExt c hC)

include hExt in
theorem segments_filePath :
    Path.segments (Text.trimStart (Text.trimSpace (inv.filePath index total ext)) inventoryDir) =
      [inv.pathNamespace, inv.fileName index total ext] := by
  rw [trimSpace_of_isPathRune (inv.filePath_runes index total hExt),
    filePath, Text.trimStart_append, Path.segments_append_sep (inv.namespace_notMem (by decide)),
    Path.segments_eq_singleton (inv.slash_notMem_fileName index total hExt)]

include hExt in
theorem fromObjectPath_filePath :
    ObjectStore.inventoryFromObjectPath (inv.filePath index total ext) =
      (inv.pathNamespace, inv.name ++ partMarker index total) := by
  have hRunes := inv.filePath_runes index total hExt
  have hFlat : Text.contains (Text.trimSpace (inv.filePath index total ext)) "/ns=" = false := by
    rw [trimSpace_of_isPathRune hRunes]
    refine Bool.eq_false_iff.mpr fun hContains => ?_
    have hMem := Text.mem_of_contains hContains (show '=' ∈ ("/ns=" : Text) by decide)
    exact absurd (hRunes '=' hMem) (by decide)
  have hSegments := inv.segments_filePath index total hExt
  have hName : inv.name ++ partMarker index total ≠ [] := by simp [inv.name_runes.1]
  have hDot : '.' ∉ ext := fun hMem => absurd (hExt '.' hMem) (by decide)
  rw [← List.nil_append [_, _]] at hSegments
  exact (ObjectStore.inventoryFromObjectPath_eq_iff hName).mpr
    (.flat hFlat hSegments (.inl ⟨ext, rfl, hDot⟩))

theorem json_runes : ∀ c ∈ ("json" : Text), isDnsChar c = true := List.all_eq_true.mp (by decide)

end Files

theorem fromObjectPath_part (index total : Nat) :
    ObjectStore.inventoryFromObjectPath (partitionObjectPath inv.objectPath index total) =
      (inv.pathNamespace, inv.name ++ partMarker index total) := by
  rw [inv.partitionObjectPath_objectPath]
  exact inv.fromObjectPath_filePath index total json_runes

theorem validate_eq_ok : inv.validate = .ok () := by
  have hTrimmed : ∀ s : Text, s ≠ [] → (∀ c ∈ s, isPathRune c = true) → isTrimmed s = true := by
    intro s hNe hRunes
    simp [isTrimmed, trimSpace_of_isPathRune hRunes, hNe]
  have hValid := inv.validNamespace
  unfold InventoryIdentity.validate
  rw [hTrimmed inv.name inv.name_runes.1 inv.name_pathRunes]
  cases hKind : inv.kind with
  | cluster =>
    rw [hKind] at hValid
    simp [hValid]
  | namespaced =>
    rw [hKind] at hValid
    obtain ⟨hNe, hRunes⟩ := isDnsLabel_mem hValid
    simp [hTrimmed inv.namespace_ hNe fun c hC => isPathRune_of_isDnsChar (hRunes c hC)]

variable {index total : Nat}

theorem baseInventoryName_part (hMany : 1 < total) (hIndex : 1 ≤ index) (hTotal : index ≤ total) :
    baseInventoryName (inv.name ++ partMarker index total) index total = inv.name := by
  unfold baseInventoryName
  rw [partMarker_of_many hMany, if_neg (by omega)]
  exact PathValidate.trimEnd_eq_iff.mpr (.inl rfl)

theorem checkObjectPath_part (hIndex : 1 ≤ index) (hTotal : index ≤ total) :
    inv.checkObjectPath inv.pathNamespace (inv.name ++ partMarker index total)
        (if total ≤ 1 then 0 else index) (if total ≤ 1 then 0 else total) = .ok () := by
  have hBase : baseInventoryName (inv.name ++ partMarker index total)
      (if total ≤ 1 then 0 else index)
      (if total ≤ 1 then 0 else total) = inv.name := by
    by_cases hOne : total ≤ 1
    · simp [baseInventoryName, partMarker, hOne]
    · rw [if_neg hOne, if_neg hOne]
      exact inv.baseInventoryName_part (Nat.lt_of_not_le hOne) hIndex hTotal
  rw [InventoryIdentity.checkObjectPath, inv.validate_eq_ok, hBase]
  exact if_neg (by simp)

/- The marker of a part is taken off; a whole has none. -/
theorem baseInventoryName_marked (hIndex : 1 ≤ index) (hTotal : index ≤ total) :
    baseInventoryName (inv.name ++ partMarker index total) index total = inv.name := by
  by_cases hOne : total ≤ 1
  · simp [baseInventoryName, partMarker, hOne]
  · exact inv.baseInventoryName_part (Nat.lt_of_not_le hOne) hIndex hTotal

end Inventory

theorem InventoryIdentity.checkObjectPath_eq_ok {id : InventoryIdentity} {pathNS pathName : Text}
    {index total : Nat} : id.checkObjectPath pathNS pathName index total = .ok () ↔
      id.validate = .ok () ∧ pathNS = id.pathNamespace ∧
        baseInventoryName pathName index total = id.name := by
  unfold checkObjectPath
  rw [Fallible.bind_eq_ok]
  constructor
  · rintro ⟨⟨⟩, hValid, hRest⟩
    dsimp only at hRest
    split_ifs at hRest with hMismatch
    rw [not_or, not_not, not_not] at hMismatch
    exact ⟨hValid, hMismatch⟩
  · rintro ⟨hValid, hMatch⟩
    refine ⟨(), hValid, if_neg ?_⟩
    rw [not_or, not_not, not_not]
    exact hMatch

/-
  The path of a part reads back as the namespace and, without the part's suffix, the name. The check
  accepts the inventory with these, and the cluster inventory of the name if the namespace is the
  one that stands for the cluster; a cluster inventory has no namespace of its own.
-/
theorem part_path_names_inventory {ns name : Text} (hNs : isDnsLabel ns = true)
    (hName : isDnsSubdomain name = true)
    {index total : Nat} (hIndex : 1 ≤ index) (hTotal : index ≤ total) :
    let parsed := ObjectStore.inventoryFromObjectPath
      (partitionObjectPath (InventoryIdentity.objectPath ⟨.namespaced, ns, name⟩) index total)
    (parsed.1, baseInventoryName parsed.2 index total) = (ns, name) ∧
      ∀ id : InventoryIdentity,
        id.checkObjectPath parsed.1 parsed.2 index total = .ok () ↔
          match id.kind with
          | .namespaced => id.namespace_ = ns ∧ id.name = name
          | .cluster =>
            id.namespace_ = [] ∧ ns = clusterInventoryPathNamespace ∧ id.name = name := by
  let inv : Inventory := ⟨⟨.namespaced, ns, name⟩, hNs, hName⟩
  have hParsed := inv.fromObjectPath_part index total
  have hBase := inv.baseInventoryName_marked hIndex hTotal
  rw [hParsed]
  dsimp only
  rw [hBase]
  refine ⟨rfl, fun id => ?_⟩
  rw [InventoryIdentity.checkObjectPath_eq_ok, hBase]
  rcases id with ⟨kind, idNs, idName⟩
  cases kind with
  | namespaced =>
    constructor
    · rintro ⟨-, hSame, hSameName⟩
      exact ⟨hSame.symm, hSameName.symm⟩
    · rintro ⟨rfl, rfl⟩
      exact ⟨inv.validate_eq_ok, rfl, rfl⟩
  | cluster =>
    constructor
    · rintro ⟨hValid, hSame, hSameName⟩
      refine ⟨?_, hSame, hSameName.symm⟩
      by_contra hNonempty
      unfold InventoryIdentity.validate at hValid
      split_ifs at hValid
    · rintro ⟨rfl, hCluster, rfl⟩
      let whole : Inventory := ⟨⟨.cluster, [], idName⟩, rfl, hName⟩
      exact ⟨whole.validate_eq_ok, hCluster, rfl⟩

/- A name that looks like a part is kept. -/
theorem part_of_part_named_inventory : (ObjectStore.inventoryFromObjectPath (partitionObjectPath
        (InventoryIdentity.objectPath ⟨.namespaced, "team", "web.part-0001-of-0002"⟩)
        1 2)).1 = ("team" : Text) :=
  congrArg Prod.fst (@part_path_names_inventory "team"
    "web.part-0001-of-0002" (by decide) (by decide) 1 2 (by decide) (by decide)).1

/- No two parts of an inventory's exports share a path, in sets of any sizes. -/
theorem parts_have_own_paths (inv : Inventory) {i j n m : Nat} (hMany : 1 < n)
    (hEq : partitionObjectPath inv.objectPath i n = partitionObjectPath inv.objectPath j m) :
    i = j ∧ n = m := by
  have hBack := congrArg ObjectStore.inventoryFromObjectPath hEq
  rw [inv.fromObjectPath_part, inv.fromObjectPath_part, Prod.mk.injEq,
    List.append_cancel_left_eq] at hBack
  exact partMarker_inj hMany hBack.2

theorem halves_are_apart :
    let path := InventoryIdentity.objectPath ⟨.namespaced, "team", "web"⟩
    partitionObjectPath path 1 2 ≠ partitionObjectPath path 2 2 := fun hEq =>
  absurd (parts_have_own_paths ⟨⟨_, _, _⟩, by decide, by decide⟩ (by decide) hEq).1 (by decide)

end Sink
end Kollect
