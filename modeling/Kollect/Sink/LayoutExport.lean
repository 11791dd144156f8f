import Kollect.Sink.Git.Export
import Kollect.Sink.PartSet

/-
  Exports of a snapshot to a Git repository (`sink/layout_export.go`, `sink/git/backend.go`,
  `sink/git/prune_owner.go`).

  A snapshot is projected to files and handed to the Git backend. The parts of a large one are
  projected one by one and share a prune plan: only the last part prunes, it keeps the paths of all
  of them, and it writes the set manifest.

  Key theorems include:
    * `exportFiles_eq_ok`
-/

namespace Kollect
namespace Sink

open Collect Export

----
-- Layout Hints
----

/- The attribute is a whole object of the item's kind. -/
def holdsObject (item : Item) (key : Text) : Bool :=
  match item.attributes.lookup key with
  | some (.obj fields) =>
    let kind := Text.trimSpace (textMember "kind" (.obj fields))
    let itemKind := Text.trimSpace item.kind
    Text.trimSpace (textMember "apiVersion" (.obj fields)) ≠ [] &&
      decide (kind ≠ []) &&
      (decide (itemKind = []) || Text.equalFold kind itemKind)
  | _ => false

/- The only such key; a second one leaves none. -/
def findManifestKey (item : Item) : Text → List Text → Text
  | found, [] => found
  | found, key :: keys =>
    if holdsObject item key then
      if found ≠ [] then []
      else findManifestKey item key keys
    else findManifestKey item found keys

def inferManifestKey (item : Item) : Text := findManifestKey item [] item.attributes.keys

/- All items have one and the same key. -/
def inferResourceLayoutHints (items : List Item) : LayoutHints :=
  match items.map inferManifestKey with
  | [] => ⟨false, []⟩
  | key :: keys =>
    if key ≠ [] ∧ ∀ other ∈ keys, other = key then ⟨true, key⟩
    else ⟨false, []⟩

----
-- Prune Options
----

/- The paths of the parts so far. -/
structure PrunePlan where
  paths : List Text

namespace PrunePlan

def new : PrunePlan := ⟨[]⟩

def add (plan : PrunePlan) (paths : List Text) : PrunePlan := ⟨plan.paths ++ paths⟩

/- Each path once, sorted. -/
def union (plan : PrunePlan) : List Text := Text.sort plan.paths.dedup

theorem mem_union {plan : PrunePlan} {p : Text} : p ∈ plan.union ↔ p ∈ plan.paths := by
  rw [union, Text.mem_sort, List.mem_dedup]

end PrunePlan

structure ExportFilesOptions where
  prune : Bool
  pruneOwner : Text
  pruneKeepPaths : List Text
  suppressPrune : Bool
  pruneClaimPaths : List Text

/- What the Git backend makes of the options. -/
def filesConfig (sinkPrune : Bool) (opts : ExportFilesOptions) : Git.PruneConfig where
  pruneOwner := opts.pruneOwner
  prune := (sinkPrune || opts.prune) && !opts.suppressPrune
  pruneKeepPaths := opts.pruneKeepPaths
  pruneClaimPaths := opts.pruneClaimPaths

/-
  One export prunes once: the last part, with the paths of all parts. Several parts without a plan
  do not prune.
-/
def gitExportOpts (prune : Bool) (partIndex partTotal : Nat)
    (projectedPaths : List Text) (plan : Option PrunePlan) :
    ExportFilesOptions × Option PrunePlan :=
  let opts : ExportFilesOptions := ⟨prune, [], [], false, []⟩
  if prune = false ∨ partTotal ≤ 1 then (opts, plan)
  else
    match plan with
    | none => ({ opts with suppressPrune := true }, none)
    | some plan =>
      let plan := plan.add projectedPaths
      if partTotal ≤ partIndex then ({ opts with pruneKeepPaths := plan.union }, some plan)
      else ({ opts with suppressPrune := true }, some plan)

section Opts

variable {partIndex partTotal : Nat}

theorem gitExportOpts_middle (hMiddle : partIndex < partTotal) (hMany : 1 < partTotal)
    (projectedPaths : List Text) (plan : PrunePlan) :
    gitExportOpts true partIndex partTotal projectedPaths (some plan) =
      (⟨true, [], [], true, []⟩, some (plan.add projectedPaths)) := by
  unfold gitExportOpts
  dsimp only
  rw [if_neg (by simpa using hMany), if_neg (by omega)]

end Opts

inductive SnapshotError where
  | payload (e : PayloadError)
  | layout (e : LayoutError)
  | identity (e : IdentityError)
  | manifestCollision (path : Text)
deriving DecidableEq, Repr

def inventoryKindName : InventoryKind → Text
  | .namespaced => "KollectInventory"
  | .cluster => "KollectClusterInventory"

/- The JSON array of the version, the kind and the names. -/
def pruneOwnerOf (cluster : Text) (inventory : InventoryIdentity) : Text :=
  Json.encode (.arr [.str "v2", .str (inventoryKindName inventory.kind),
      .str cluster, .str inventory.namespace_, .str inventory.name])

def inventoryPruneOwner (r : ResolvedLayout) (inventory : InventoryIdentity) :
    Except SnapshotError Text := do
  inventory.validate.mapError .identity
  let cluster : Text := if r.cluster = [] then "default" else r.cluster
  pure (pruneOwnerOf cluster inventory)

----
-- The Set Manifest
----

/- The layout of the whole set: the part's suffix is off. -/
def setResolved (r : ResolvedLayout) (partIndex partTotal : Nat) : ResolvedLayout :=
  { r with inventoryName := baseInventoryName r.inventoryName partIndex partTotal }

def setManifestPath (r : ResolvedLayout) (partIndex partTotal : Nat) : Text :=
  (setResolved r partIndex partTotal).setManifestPath

/- The path that the last part will write. -/
def setManifestClaim (r : ResolvedLayout) (partIndex partTotal : Nat)
    (plan : Option PrunePlan) : List Text :=
  if r.prune = false ∨ partTotal ≤ 1 ∨ partTotal ≤ partIndex ∨ plan.isNone then []
  else [setManifestPath r partIndex partTotal]

def appendSetManifest (r : ResolvedLayout) (gitFiles : List Git.FileEntry)
    (opts : ExportFilesOptions) (partIndex partTotal : Nat) (plan : Option PrunePlan) :
    Except SnapshotError (List Git.FileEntry × ExportFilesOptions) :=
  match plan with
  | none => .ok (gitFiles, opts)
  | some plan =>
    if r.prune = false ∨ partTotal ≤ 1 ∨ partIndex < partTotal then .ok (gitFiles, opts)
    else
      let path := setManifestPath r partIndex partTotal
      if path ∈ plan.union then .error (.manifestCollision path)
      else
        let manifest := buildSetManifest (setResolved r partIndex partTotal) partTotal plan.union
        .ok (gitFiles ++ [⟨path, marshalSetManifest manifest⟩],
          { opts with pruneKeepPaths := opts.pruneKeepPaths ++ [path] })

section Manifest

variable {r : ResolvedLayout} {partIndex partTotal : Nat}

theorem appendSetManifest_middle (hMiddle : partIndex < partTotal)
    (gitFiles : List Git.FileEntry) (opts : ExportFilesOptions) (plan : PrunePlan) :
    appendSetManifest r gitFiles opts partIndex partTotal (some plan) = .ok (gitFiles, opts) :=
  if_pos (.inr (.inr hMiddle))

end Manifest

----
-- Resolving A Snapshot
----

/-
  The YAML encoder, the text of the float64 nearest to a number, and the RFC 3339 form of an
  envelope's time.
-/
structure Codec where
  yaml : Json → Text
  float : Int → Text
  rfc3339 : Text → Text

/- What an export hands to its backend. -/
inductive SnapshotExport where
  | payload (path data : Text)
  | files (gitFiles : List Git.FileEntry) (opts : ExportFilesOptions)

def isGitLayoutFamily (type : SinkType) : Bool := decide (type = .git ∨ type = .gitlab)

theorem isGitLayoutFamily_eq_false {type : SinkType} :
    isGitLayoutFamily type = false ↔ type = .other := by
  cases type <;> decide

/- The layout that items are exported with. -/
def layoutOf (codec : Codec) (spec : KollectSinkSpec) (invNS invName : Text) (generation : Int)
    (exportedAt : Text) (items : List Item) : ResolvedLayout :=
  { resolve spec invNS invName generation
      (inferResourceLayoutHints items) with
    exportedAt := codec.rfc3339 exportedAt }

def toEntry (f : File) : Git.FileEntry := ⟨f.path, f.data⟩

/-
  How a document is exported, and the plan after it. JSON in one document is written as it is, and
  so is a tree that the backend cannot write.
-/
def resolveSnapshotExport (sha : Digest) (codec : Codec) (canTree : Bool)
    (spec : KollectSinkSpec) (document : Json) (invNS invName : Text) (generation : Int)
    (defaultObjectPath : Text) (inventory : InventoryIdentity) (plan : Option PrunePlan) :
    Except SnapshotError (SnapshotExport × Option PrunePlan) :=
  let envelope := Json.encode document
  if isGitLayoutFamily spec.type = false then .ok (.payload defaultObjectPath envelope, plan)
  else do
    let items ← (itemsFromPayload codec.float document).mapError .payload
    let r := layoutOf codec spec invNS invName generation (textMember "exportedAt" document) items
    if r.isDocument && decide (r.format = .json) then pure (.payload r.documentPath envelope, plan)
    else do
      let files ← (project codec.yaml sha items r).mapError .layout
      if canTree = false then
        match files with
        | [f] => pure (.payload f.path f.data, plan)
        | _ => pure (.payload r.documentPath envelope, plan)
      else do
        let partIndex := (intMember "partIndex" document).toNat
        let partTotal := (intMember "partTotal" document).toNat
        let (opts, plan) := gitExportOpts r.prune partIndex partTotal (files.map File.path) plan
        let owner ← inventoryPruneOwner r inventory
        let claim := setManifestClaim r partIndex partTotal plan
        let (gitFiles, opts) ←
          appendSetManifest r (files.map toEntry)
            { opts with
              pruneOwner := owner
              pruneClaimPaths := claim }
            partIndex partTotal plan
        pure (.files gitFiles opts, plan)

----
-- Exporting A Set Of Parts
----

inductive BackendError where
  | invalid (e : Git.ExportError)
  | refused (e : Git.PruneError)
deriving DecidableEq, Repr

/- `ExportFiles` on the tree of the branch. -/
def exportFiles (sha : Digest) (t : FileTree) (cfg : Git.PruneConfig) (files : List Git.FileEntry) :
    Except BackendError FileTree := do
  let validated ← (Git.validateExportFiles cfg files).mapError .invalid
  let change ← (Git.writeExportFiles sha t cfg validated).mapError .refused
  pure change.tree

def SnapshotExport.run (sha : Digest) (sinkPrune : Bool) (t : FileTree) :
    SnapshotExport → Except BackendError FileTree
  | .payload path data => exportFiles sha t ⟨[], sinkPrune, [], []⟩ [⟨path, data⟩]
  | .files gitFiles opts => exportFiles sha t (filesConfig sinkPrune opts) gitFiles

inductive SetError where
  | resolve (e : SnapshotError)
  | backend (e : BackendError)
deriving DecidableEq, Repr

structure SetState where
  tree : FileTree
  plan : Option PrunePlan

section Parts

variable (sha : Digest) (codec : Codec) (sinkPrune : Bool) (spec : KollectSinkSpec)
variable (inv : InventoryIdentity)

def exportPart (s : SetState) (part : EnvelopePartition) : Except SetError SetState :=
  let inventory :=
    ObjectStore.inventoryFromObjectPath (partitionObjectPath inv.objectPath part.index part.total)
  let generation := intMember "generation" part.envelope
  do
    let (snapshot, plan) ← (resolveSnapshotExport sha codec true spec part.envelope
        inventory.1 inventory.2 generation
        (ObjectStore.objectPath spec inventory.1 inventory.2 generation)
        inv s.plan).mapError .resolve
    let tree ← (snapshot.run sha sinkPrune s.tree).mapError .backend
    pure ⟨tree, plan⟩

end Parts

----
-- What The Backend Leaves
----

theorem exportFiles_eq_ok {sha : Digest} {t t' : FileTree} {cfg : Git.PruneConfig}
    {files : List Git.FileEntry} (hOk : exportFiles sha t cfg files = .ok t') :
    ∃ validated change, Git.validateExportFiles cfg files = .ok validated ∧
        Git.writeExportFiles sha t cfg validated = .ok change ∧ t' = change.tree := by
  simp only [exportFiles, Fallible.bind_eq_ok, Fallible.mapError_eq_ok] at hOk
  rcases hOk with ⟨validated, hValidated, change, hChange, hEq⟩
  exact ⟨validated, change, hValidated, hChange, (Except.ok.inj hEq).symm⟩

----
-- Two Rows In Two Parts
----

/- One resource as a target has collected it. -/
def targetRow (target : Text) : Item where
  targetNamespace := "a"
  targetName := target
  namespace_ := "a"
  name := "n"
  group := []
  version := "v"
  kind := "K"
  uid := "u"
  attributes := ∅

def rowsMetadata : Metadata where
  generation := 1
  cluster := []
  exportedAt := "t"
  partIndex := 0
  partTotal := 0

def treeSpec (template : Text) : KollectSinkSpec where
  type := .git
  cluster := []
  pathTemplate := []
  serialization := none
  objectStoreFormat := none
  layout := some ⟨some .perResource, some .item, template, none, none⟩

def plainCodec : Codec where
  yaml := Json.encode
  float := Text.ofInt
  rfc3339 := id

end Sink
end Kollect
