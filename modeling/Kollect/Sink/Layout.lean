import Kollect.Export.Envelope
import Kollect.Foundation.Path

/-
  The files of a snapshot in a Git repository (`sink/layout`, `api/v1alpha1/layout_spec_types.go`).

  A sink spec resolves to a layout: one document, one file per item, or one file per item with an
  index. Projection renders the path and the content of each file and refuses two items with one
  path.

  Files are written as JSON or as YAML; the YAML encoder is a parameter.
-/

namespace Kollect
namespace Sink

open Collect Export

----
-- Sink Specs
----

inductive SinkType where
  | git
  | gitlab
  | other
deriving DecidableEq, Repr

inductive LayoutMode where
  | document
  | perResource
  | split
deriving DecidableEq, Repr

inductive LayoutContent where
  | item
  | attributes
  | manifest
deriving DecidableEq, Repr

inductive GroupInPath where
  | auto
  | always
  | never
deriving DecidableEq, Repr

inductive SerializationFormat where
  | json
  | yaml
  | parquet
  | csv
  | ndjson
deriving DecidableEq, Repr

structure LayoutIndexSpec where
  enabled : Option Bool
  pathTemplate : Text

structure LayoutFilenameSpec where
  groupInPath : Option GroupInPath
  lowercaseKind : Option Bool
  maxSegmentLength : Option Int

structure LayoutSpec where
  mode : Option LayoutMode
  content : Option LayoutContent
  pathTemplate : Text
  index : Option LayoutIndexSpec
  filename : Option LayoutFilenameSpec

structure KollectSinkSpec where
  type : SinkType
  cluster : Text
  pathTemplate : Text
  serialization : Option SerializationFormat
  objectStoreFormat : Option SerializationFormat
  layout : Option LayoutSpec

namespace KollectSinkSpec

def modeOrDefault (spec : KollectSinkSpec) : LayoutMode :=
  (spec.layout.bind LayoutSpec.mode).getD .document

def modeExplicit (spec : KollectSinkSpec) : Bool := (spec.layout.bind LayoutSpec.mode).isSome

/- The index is on in split mode unless it is switched. -/
def indexEnabled (spec : KollectSinkSpec) : Bool :=
  ((spec.layout.bind LayoutSpec.index).bind
    LayoutIndexSpec.enabled).getD (decide (spec.modeOrDefault = .split))

/- Git sinks write YAML by default. -/
def effectiveFormat (spec : KollectSinkSpec) : SerializationFormat :=
  (spec.serialization <|> spec.objectStoreFormat).getD (if spec.type = .other then .json else .yaml)

end KollectSinkSpec

variable (filename : Option LayoutFilenameSpec)

def groupInPathOrDefault : GroupInPath :=
  (filename.bind LayoutFilenameSpec.groupInPath).getD .auto

def lowercaseKindEnabled : Bool :=
  (filename.bind LayoutFilenameSpec.lowercaseKind).getD true

def maxSegmentLengthOrDefault : Nat :=
  match filename.bind LayoutFilenameSpec.maxSegmentLength with
  | some n => if n ≤ 0 then 63 else n.toNat
  | none => 63

----
-- Resolving
----

def extensionForFormat : SerializationFormat → Text
  | .yaml => ".yaml"
  | .ndjson => ".ndjson"
  | _ => ".json"

def defaultDocumentPathTemplate : Text := "inventory/{namespace}/{name}{extension}"

def defaultLayoutPathTemplate : Text := "{cluster}/{sourceNamespace}/{kind}/{sourceName}{extension}"

def defaultLayoutIndexPathTemplate : Text := "inventory/{namespace}/{name}{extension}"

def defaultExportAs : Text := "resource"

/- A trimmed text, or the default for an empty one. -/
def orDefault (s default : Text) : Text :=
  if Text.trimSpace s = [] then default else Text.trimSpace s

/- What the items say about an unset layout mode. -/
structure LayoutHints where
  resourceExportMode : Bool
  manifestKey : Text
deriving DecidableEq

structure ResolvedLayout where
  mode : LayoutMode
  content : LayoutContent
  format : SerializationFormat
  documentPathTemplate : Text
  pathTemplate : Text
  cluster : Text
  inventoryNamespace : Text
  inventoryName : Text
  generation : Int
  manifestKey : Text
  indexEnabled : Bool
  indexPathTemplate : Text
  exportedAt : Text
  filename : Option LayoutFilenameSpec

namespace ResolvedLayout

def extension (r : ResolvedLayout) : Text := extensionForFormat r.format

def isDocument (r : ResolvedLayout) : Bool := decide (r.mode = .document)

/- Stale files are pruned in every tree layout. -/
def prune (r : ResolvedLayout) : Bool := decide (r.mode ≠ .document)

end ResolvedLayout

/- An unset mode is upgraded when the items ask for it. -/
def effectiveMode (spec : KollectSinkSpec) (hints : LayoutHints) : LayoutMode :=
  if hints.resourceExportMode && !spec.modeExplicit then .perResource
  else spec.modeOrDefault

def effectiveContent (spec : KollectSinkSpec) (hints : LayoutHints) : LayoutContent :=
  match spec.layout.bind LayoutSpec.content with
  | some content => content
  | none =>
    if hints.resourceExportMode && decide (effectiveMode spec hints ≠ .document) then
      .manifest
    else .item

def resolve (spec : KollectSinkSpec) (inventoryNamespace inventoryName : Text) (generation : Int)
    (hints : LayoutHints) : ResolvedLayout where
  mode := effectiveMode spec hints
  content := effectiveContent spec hints
  format := spec.effectiveFormat
  documentPathTemplate := orDefault spec.pathTemplate defaultDocumentPathTemplate
  pathTemplate :=
    orDefault ((spec.layout.map LayoutSpec.pathTemplate).getD []) defaultLayoutPathTemplate
  cluster := Text.trimSpace spec.cluster
  inventoryNamespace := inventoryNamespace
  inventoryName := inventoryName
  generation := generation
  manifestKey := orDefault hints.manifestKey defaultExportAs
  indexEnabled := spec.indexEnabled
  indexPathTemplate := orDefault
      (((spec.layout.bind LayoutSpec.index).map LayoutIndexSpec.pathTemplate).getD [])
      defaultLayoutIndexPathTemplate
  exportedAt := []
  filename := spec.layout.bind LayoutSpec.filename

----
-- Inventory Paths
----

def clusterOrDefault (cluster : Text) : Text := orDefault cluster "default"

variable (r : ResolvedLayout)

def inventoryPlaceholders : List (Text × Text) :=
  [("{cluster}", clusterOrDefault r.cluster), ("{namespace}", r.inventoryNamespace),
    ("{name}", r.inventoryName), ("{generation}", Text.ofInt r.generation),
    ("{extension}", r.extension)]

def renderInventoryPath (template : Text) (r : ResolvedLayout) : Text :=
  Text.replaceAll (inventoryPlaceholders r) template

namespace ResolvedLayout

def documentPath : Text := renderInventoryPath r.documentPathTemplate r

def indexPath : Text := renderInventoryPath r.indexPathTemplate r

def setManifestPath : Text :=
  renderInventoryPath "inventory/{namespace}/{name}.manifest.json" r

end ResolvedLayout

----
-- Item Paths
----

inductive LayoutError where
  | traversal (path : Text)
  | emptyPath
  | collision (prev item path : Text)
  | indexCollision (path : Text)
  | missingAttribute (name key : Text)
deriving DecidableEq, Repr

/- The name of a placeholder whose brace was just read. -/
def placeholderName (s : Text) : Option Text :=
  let name := s.takeWhile Char.isAlpha
  if name ≠ [] ∧ (s.drop name.length).head? = some '}' then some name
  else none

/-
  Replace the placeholders that have a value. `skip` counts the runes of a placeholder still to be
  passed over.
-/
def replacePlaceholders (value : Text → Option Text) : Nat → Text → Text
  | _, [] => []
  | skip + 1, _ :: s => replacePlaceholders value skip s
  | 0, c :: s =>
    if c = '{' then
      match placeholderName s with
      | some name =>
        (value name).getD ('{' :: name ++ ['}']) ++ replacePlaceholders value (name.length + 1) s
      | none => c :: replacePlaceholders value 0 s
    else c :: replacePlaceholders value 0 s

/- Cut off dots and dashes on both sides. -/
def trimDots (s : Text) : Text := Text.trimFunc (fun c => c = '.' || c = '-') s

/- The unsafe runes are joined up into dashes. -/
def sanitizeSegment (value : Text) (maxLen : Nat) : Text :=
  let value := Text.collapseRuns (fun c => c ∈ ['/', '\\', ':']) 1 '-' [] (Text.trimSpace value)
  let value := trimDots (Text.collapseRuns (fun c => c = '.') 2 '-' [] value)
  if 0 < maxLen ∧ maxLen < Text.byteLen value then trimDots (Text.cutBytes maxLen value)
  else value

def groupSegment (group : Text) (policy : GroupInPath) : Text :=
  match policy with
  | .never => []
  | _ => Text.trimSpace group

/- Drop the empty segments and refuse those that go up. -/
def cleanSegments (path : Text) : List Text → Except LayoutError (List Text)
  | [] => .ok []
  | segment :: segments =>
    let segment := Text.trimSpace segment
    if segment = [] then cleanSegments path segments
    else if segment = ['.'] ∨ segment = ['.', '.'] then .error (.traversal path)
    else do
      let kept ← cleanSegments path segments
      pure (segment :: kept)

def cleanRenderedPath (path : Text) : Except LayoutError Text :=
  do
    let path := (Text.trimSpace path).map fun c => if c = '\\' then '/' else c
    let kept ← cleanSegments path (Path.segments path)
    if kept = [] then .error .emptyPath
    else pure (Path.join kept)

/- The values of the placeholders of an item's path. -/
def itemPlaceholders (item : Item) (r : ResolvedLayout) : List (Text × Text) :=
  let kind :=
    if lowercaseKindEnabled r.filename then Text.toLower item.kind
    else item.kind
  let group := groupSegment item.group (groupInPathOrDefault r.filename)
  let segment := fun value => sanitizeSegment value (maxSegmentLengthOrDefault r.filename)
  let cluster : Text := if Text.trimSpace r.cluster = [] then "default" else r.cluster
  [("cluster", segment cluster), ("namespace", segment r.inventoryNamespace),
    ("name", segment r.inventoryName), ("targetNamespace", segment item.targetNamespace),
    ("targetName", segment item.targetName), ("sourceNamespace", segment item.namespace_),
    ("sourceName", segment item.name), ("group", segment group), ("kind", segment kind),
    ("uid", segment item.uid), ("generation", Text.ofInt r.generation), ("extension", r.extension)]

def renderItemPath (item : Item) (r : ResolvedLayout) : Except LayoutError Text :=
  cleanRenderedPath
    (replacePlaceholders (fun name => (itemPlaceholders item r).lookup name) 0 r.pathTemplate)

----
-- File Contents
----

section Projection

/- The YAML text of a value. -/
variable (yaml : Json → Text)

def marshalValue (value : Json) (format : SerializationFormat) : Text :=
  match format with
  | .yaml => yaml value
  | .ndjson => Json.encode value ++ ['\n']
  | _ => Json.encodeIndent 0 value ++ ['\n']

def marshalDocument (items : List Item) (format : SerializationFormat) : Text :=
  match format with
  | .ndjson => items.flatMap fun item => Json.encode (itemJson item) ++ ['\n']
  | _ => marshalValue yaml (.arr (items.map itemJson)) format

/- The embedded object; a nil map has no keys. -/
def manifestPayload (item : Item) (manifestKey : Text) : Except LayoutError Json :=
  let key := orDefault manifestKey defaultExportAs
  match item.attributes.lookup key with
  | some raw => .ok raw
  | none => .error (.missingAttribute item.name key)

def itemPayload (item : Item) (content : LayoutContent)
    (manifestKey : Text) : Except LayoutError Json :=
  match content with
  | .attributes => .ok (attributesJson item.attributes)
  | .manifest => manifestPayload item manifestKey
  | .item => .ok (itemJson item)

----
-- Projection
----

structure File where
  path : Text
  data : Text
deriving DecidableEq, Repr

def itemRef (item : Item) : Text :=
  Text.trimSpace (item.kind ++ '/' :: (item.namespace_ ++ '/' :: item.name))

/- One file an item. `seen` has the paths rendered so far and the items they were rendered for. -/
def projectItems (r : ResolvedLayout) (seen : List (Text × Text)) :
    List Item → Except LayoutError (List File)
  | [] => .ok []
  | item :: items => do
      let path ← renderItemPath item r
      match seen.lookup path with
      | some prev => .error (.collision prev (itemRef item) path)
      | none => do
          let payload ← itemPayload item r.content r.manifestKey
          let files ← projectItems r ((path, itemRef item) :: seen) items
          pure (⟨path, marshalValue yaml payload r.format⟩ :: files)

def projectPerResource (items : List Item) (r : ResolvedLayout) : Except LayoutError (List File) :=
  projectItems yaml r [] items

/- The sidecar of the split mode. -/
def buildIndex (sha : Digest) (r : ResolvedLayout) (items : List Item) (paths : List Text) : Json :=
  .obj ([member "schemaVersion" exportSchemaVersion, ("itemCount".toList, .int items.length)] ++
      omitEmpty "checksum" (itemsFingerprint sha items) ++ omitEmpty "exportedAt" r.exportedAt ++
      omitEmpty "cluster" (clusterOrDefault r.cluster) ++ [("paths".toList, .arr (paths.map .str))])

def projectSplit (sha : Digest) (items : List Item)
    (r : ResolvedLayout) : Except LayoutError (List File) := do
  let files ← projectPerResource yaml items r
  if r.indexEnabled then
    if r.indexPath ∈ files.map File.path then .error (.indexCollision r.indexPath)
    else
      let index := buildIndex sha r items (files.map File.path)
      pure (⟨r.indexPath, marshalValue yaml index r.format⟩ :: files)
  else pure files

def projectDocument (items : List Item) (r : ResolvedLayout) : List File :=
  [⟨r.documentPath, marshalDocument yaml items r.format⟩]

def project (sha : Digest) (items : List Item)
    (r : ResolvedLayout) : Except LayoutError (List File) :=
  match r.mode with
  | .perResource => projectPerResource yaml items r
  | .split => projectSplit yaml sha items r
  | .document => .ok (projectDocument yaml items r)

end Projection

----
-- Set Manifests
----

def setManifestKind : Text := "KollectExportSetManifest"

/- The sidecar of a multipart export. -/
structure SetManifest where
  kind : Text
  schemaVersion : Text
  cluster : Text
  namespace_ : Text
  name : Text
  generation : Int
  partTotal : Nat
  parts : List Nat
  exportedAt : Text
  paths : List Text
deriving DecidableEq, Repr

def buildSetManifest (partTotal : Nat) (paths : List Text) : SetManifest where
  kind := setManifestKind
  schemaVersion := exportSchemaVersion
  cluster := clusterOrDefault r.cluster
  namespace_ := r.inventoryNamespace
  name := r.inventoryName
  generation := r.generation
  partTotal := partTotal
  parts := List.range' 1 partTotal
  exportedAt := r.exportedAt
  paths := Text.sort paths

def setManifestJson (m : SetManifest) : Json :=
  .obj ([member "kind" m.kind, member "schemaVersion" m.schemaVersion] ++
      omitEmpty "cluster" m.cluster ++ [member "namespace" m.namespace_, member "name" m.name,
        ("generation".toList, .int m.generation), ("partTotal".toList, .int m.partTotal),
        ("parts".toList, .arr (m.parts.map fun part => .int part))] ++
      omitEmpty "exportedAt" m.exportedAt ++ [("paths".toList, .arr (m.paths.map .str))])

/- The manifest is JSON in every format. -/
def marshalSetManifest (m : SetManifest) : Text := Json.encodeIndent 0 (setManifestJson m) ++ ['\n']

end Sink
end Kollect
