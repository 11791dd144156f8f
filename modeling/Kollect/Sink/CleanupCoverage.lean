import Kollect.Sink.KeyMatcher
import Kollect.Sink.LayoutExport

/-
  Whether a cleanup reaches what an export wrote (`sink/export.go`, `sink/cleanup.go`,
  `sink/objectstore/path.go`).

  An export renders its template with the part suffix inside the name. A cleanup renders it with the
  plain name and then looks for the suffix in front of the extension of the file. The two agree only
  if the name is the end of the file's stem.

  Key theorems include:
    * `writtenPaths_document`
    * `sweepsParts_of_covers`
    * `covers_iff_sweepsParts`
-/

namespace Kollect
namespace Sink

open Export

----
-- The Document Of An Export
----

/- The path of an export that writes one document. -/
def documentPathFor (spec : KollectSinkSpec) (invNS invName : Text) (generation : Int) : Text :=
  if spec.type = .other then ObjectStore.objectPath spec invNS invName generation
  else (resolve spec invNS invName generation ⟨false, []⟩).documentPath

/- The namespace and the name are read from the request. -/
def Inventory.documentPath (inv : Inventory) (spec : KollectSinkSpec)
    (generation : Int) (index total : Nat) : Text :=
  let identity :=
    ObjectStore.inventoryFromObjectPath (partitionObjectPath inv.objectPath index total)
  documentPathFor spec identity.1 identity.2 generation

theorem Inventory.documentPath_eq (inv : Inventory) (spec : KollectSinkSpec)
    (generation : Int) (index total : Nat) : inv.documentPath spec generation index total =
      documentPathFor spec inv.pathNamespace (inv.name ++ partMarker index total) generation := by
  unfold Inventory.documentPath
  rw [inv.fromObjectPath_part]

/- For an object store it is the path of its objects. -/
theorem Inventory.documentPath_eq_writtenPath (inv : Inventory) {spec : KollectSinkSpec}
    (hStore : spec.type = .other) (generation : Int) (index total : Nat) :
    inv.documentPath spec generation index total = inv.writtenPath spec generation index total := by
  rw [inv.documentPath_eq, inv.writtenPath_eq, documentPathFor, if_pos hStore]

/- The paths an export reports. -/
def SnapshotExport.writtenPaths : SnapshotExport → List Text
  | .payload path _ => [path]
  | .files gitFiles _ => gitFiles.map Git.FileEntry.path

section Document

variable {sha : Digest} {codec : Codec} {canTree : Bool} {spec : KollectSinkSpec} {document : Json}
variable {invNS invName : Text} {generation : Int} {inventory : InventoryIdentity}
variable {plan plan' : Option PrunePlan} {snapshot : SnapshotExport}

/- Without pruning no set manifest is written. -/
theorem appendSetManifest_document {r : ResolvedLayout} (hPrune : r.prune = false)
    (gitFiles : List Git.FileEntry) (opts : ExportFilesOptions) (partIndex partTotal : Nat)
    (plan : Option PrunePlan) :
    appendSetManifest r gitFiles opts partIndex partTotal plan = .ok (gitFiles, opts) := by
  cases plan with
  | none => rfl
  | some plan => exact if_pos (.inl hPrune)

/-
  An object store, and a Git sink whose layout is a document, write this one path, whatever the
  items, the format and the part are.
-/
theorem writtenPaths_document
    (hDocument : ∀ items, itemsFromPayload codec.float document = .ok items →
      effectiveMode spec (inferResourceLayoutHints items) = .document)
    (hOk : resolveSnapshotExport sha codec canTree spec document invNS invName generation
      (ObjectStore.objectPath spec invNS invName generation) inventory plan =
        .ok (snapshot, plan')) :
    snapshot.writtenPaths = [documentPathFor spec invNS invName generation] := by
  unfold resolveSnapshotExport at hOk
  unfold documentPathFor
  dsimp only at hOk
  by_cases hStore : spec.type = .other
  · rw [if_pos (isGitLayoutFamily_eq_false.mpr hStore)] at hOk
    rw [if_pos hStore, ← (Prod.mk.inj (Except.ok.inj hOk)).1]
    rfl
  · rw [if_neg (mt isGitLayoutFamily_eq_false.mp hStore)] at hOk
    rw [if_neg hStore]
    simp only [Fallible.bind_eq_ok, Fallible.mapError_eq_ok] at hOk
    rcases hOk with ⟨items, hItems, hOk⟩
    have hMode := hDocument items hItems
    generalize hLayout : layoutOf codec spec invNS invName generation
      (textMember "exportedAt" document) items = r at hOk
    have hIs : r.mode = .document := by
      rw [← hLayout]
      exact hMode
    have hPath : (resolve spec invNS invName generation ⟨false, []⟩).documentPath =
        r.documentPath := by
      rw [← hLayout]
      rfl
    have hPrune : r.prune = false := by simp [ResolvedLayout.prune, hIs]
    have hProject : project codec.yaml sha items r = .ok (projectDocument codec.yaml items r) := by
      simp [project, hIs]
    rw [hPath]
    split_ifs at hOk
    · rw [← (Prod.mk.inj (Except.ok.inj hOk)).1]
      rfl
    · -- the backend takes one payload
      simp only [hProject, Fallible.bind_eq_ok, Fallible.mapError_eq_ok] at hOk
      rcases hOk with ⟨files, hFiles, hOk⟩
      rw [← Except.ok.inj hFiles] at hOk
      rw [← (Prod.mk.inj (Except.ok.inj hOk)).1]
      rfl
    · -- the backend takes a list of files
      simp only [hProject, appendSetManifest_document hPrune, Fallible.bind_eq_ok,
        Fallible.mapError_eq_ok] at hOk
      rcases hOk with ⟨files, hFiles, owner, -, entries, hEntries, hOk⟩
      rw [← (Prod.mk.inj (Except.ok.inj hOk)).1, ← Except.ok.inj hEntries, ← Except.ok.inj hFiles]
      rfl

end Document

/-
  The cleanup of each inventory addresses the document of each part of each of its exports, also at
  a later generation.
-/
def Covers (spec : KollectSinkSpec) : Prop :=
  ∀ (inv : Inventory) (part : PartNumber) (exported current : Nat),
    ∃ m ∈ inv.cleanupKeys spec current,
      m.matchesKey (inv.documentPath spec exported part.index part.total) = true

----
-- Rendering A Document Template
----

def documentTemplate (spec : KollectSinkSpec) : Text :=
  orDefault spec.pathTemplate
    (if spec.type = .other then ObjectStore.defaultPathTemplate else defaultDocumentPathTemplate)

def documentExtension (spec : KollectSinkSpec) : Text :=
  if spec.type = .other then ObjectStore.defaultExtension
  else extensionForFormat spec.effectiveFormat

def documentVars (spec : KollectSinkSpec) (invNS invName : Text)
    (generation : Int) : ObjectStore.PathVars :=
  { ObjectStore.pathVars spec invNS invName generation with extension := documentExtension spec }

/- An object store that does not use its template. -/
def writesHive (spec : KollectSinkSpec) : Bool :=
  decide (spec.type = .other) && ObjectStore.isParquetFormat spec

theorem documentPathFor_eq {spec : KollectSinkSpec} (hFlat : writesHive spec = false)
    (invNS invName : Text) (generation : Int) :
    documentPathFor spec invNS invName generation = Text.replaceAll
        (documentVars spec invNS invName generation).pairs (documentTemplate spec) := by
  unfold documentPathFor documentTemplate documentVars documentExtension
  by_cases hStore : spec.type = .other
  · have hParquet : ObjectStore.isParquetFormat spec = false := by
      simpa [writesHive, hStore] using hFlat
    simp only [if_pos hStore]
    unfold ObjectStore.objectPath ObjectStore.renderPathTemplate
    rw [hParquet]
    rfl
  · simp only [if_neg hStore]
    have hPairs : inventoryPlaceholders (resolve spec invNS invName generation ⟨false, []⟩) =
      ({ ObjectStore.pathVars spec invNS invName generation with
        extension := extensionForFormat spec.effectiveFormat } : ObjectStore.PathVars).pairs := by
      have hExt : ObjectStore.withDot
            (orDefault (extensionForFormat spec.effectiveFormat) ObjectStore.defaultExtension) =
            extensionForFormat spec.effectiveFormat := by
        cases spec.effectiveFormat <;> decide
      unfold inventoryPlaceholders ObjectStore.PathVars.pairs
      simp only [hExt]
      rfl
    unfold ResolvedLayout.documentPath renderInventoryPath
    rw [hPairs]
    rfl

section Pieces

variable (vars : ObjectStore.PathVars)

theorem pairs_brace : ∀ pair ∈ vars.pairs, '\x7b' ∉ pair.1.tail := by
  simp [ObjectStore.PathVars.pairs]

theorem replaceAll_around_name (front back : Text) :
    Text.replaceAll vars.pairs (front ++ (("{name}" : Text) ++ back)) =
      Text.replaceAll vars.pairs front ++ (vars.name ++ Text.replaceAll vars.pairs back) := by
  have hName := @Text.replaceAll_key vars.pairs "{name}" vars.name back (by decide) rfl
  rw [← hName]
  exact Text.replaceAll_append_sep (pairs_brace vars) _ _

theorem replaceAll_undated {piece : Text} (hPiece : Text.contains piece "{generation}" = false)
    (generation generation' : Int) :
    Text.replaceAll ({ vars with generation := generation }).pairs piece = Text.replaceAll
        ({ vars with generation := generation' }).pairs
        piece := by
  apply Text.replaceFrom_congr
  intro tail hTail
  have hNone : ("{generation}" : Text).isPrefixOf tail = false := by
    rw [Text.contains, List.any_eq_false] at hPiece
    exact Bool.eq_false_iff.mpr (hPiece tail ((List.mem_tails _ _).mpr hTail))
  simp only [ObjectStore.PathVars.pairs, List.find?_cons, hNone]

end Pieces

def rendered (spec : KollectSinkSpec) (invNS piece : Text) : Text :=
  Text.replaceAll (documentVars spec invNS [] 0).pairs piece

theorem replaceAll_piece (spec : KollectSinkSpec) {piece : Text}
    (hName : Text.contains piece "{name}" = false)
    (hGeneration : Text.contains piece "{generation}" = false)
    (invNS invName : Text) (generation : Int) : Text.replaceAll
        (documentVars spec invNS invName generation).pairs
        piece = rendered spec invNS piece :=
  (replaceAll_unnamed (documentVars spec invNS invName generation) hName invName []).trans
    (replaceAll_undated (documentVars spec invNS [] generation) hGeneration generation 0)

----
-- Nothing Is Trimmed From A Rendered Path
----

/- A text that is not empty and has no white space around. -/
def Edged (s : Text) : Prop :=
  s ≠ [] ∧ (∀ c ∈ s.head?, Text.isSpace c = false) ∧ ∀ c ∈ s.getLast?, Text.isSpace c = false

theorem edged_iff_all {s : Text} : Edged s ↔
      (!s.isEmpty && s.head?.all (!Text.isSpace ·) && s.getLast?.all (!Text.isSpace ·)) = true := by
  have hAll : ∀ first : Option Char,
      first.all (!Text.isSpace ·) = true ↔ ∀ c ∈ first, Text.isSpace c = false := by
    intro first
    cases first with
    | none => simp
    | some c => simp
  rw [Bool.and_eq_true, Bool.and_eq_true, hAll, hAll, and_assoc,
    Bool.not_eq_true', ← Bool.not_eq_true, List.isEmpty_iff]
  rfl

theorem edged_of_runes {s : Text} (hNe : s ≠ []) (hRunes : ∀ c ∈ s, isPathRune c = true) :
    Edged s :=
  ⟨hNe, fun c hC => isSpace_of_isPathRune (hRunes c (List.mem_of_mem_head? hC)),
    fun c hC => isSpace_of_isPathRune (hRunes c (List.mem_of_mem_getLast? hC))⟩

theorem edged_orDefault {default : Text} (hDefault : Edged default) (s : Text) :
    Edged (orDefault s default) := by
  unfold orDefault
  split_ifs with hEmpty
  · exact hDefault
  · exact ⟨hEmpty, Text.trimFunc_ends Text.isSpace s⟩

theorem IsObjectName.edged {name : Text} (hName : IsObjectName name) : Edged name := by
  refine edged_of_runes hName.1 fun c hC => ?_
  rcases hName.2 c hC with hDns | hDot
  · exact isPathRune_of_isDnsChar hDns
  · rw [hDot]
    decide

theorem edged_ofNat (n : Nat) : Edged (Text.ofInt n) := by
  have hDigits : Text.ofInt n = Nat.toDigits 10 n := by
    unfold Text.ofInt
    rw [if_neg (by omega)]
    rfl
  rw [hDigits]
  refine edged_of_runes Nat.toDigits_ne_nil fun c hC => ?_
  have hDigit := Nat.isDigit_of_mem_toDigits (by decide) (by decide) hC
  simp [isPathRune, isDnsChar, hDigit]

theorem edged_of_decide {s : Text} (hNe : s ≠ []) (hRunes : s.all isPathRune = true) : Edged s :=
  edged_of_runes hNe (List.all_eq_true.mp hRunes)

section Trimmed

variable {spec : KollectSinkSpec} {invNS invName : Text}

theorem pairs_edged (hNs : isDnsLabel invNS = true)
    (hName : IsObjectName invName) (generation : Nat) :
    ∀ pair ∈ (documentVars spec invNS invName generation).pairs, Edged pair.2 := by
  have hLabel : Edged invNS :=
    edged_of_runes (isDnsLabel_mem hNs).1 fun c hC =>
      isPathRune_of_isDnsChar ((isDnsLabel_mem hNs).2 c hC)
  have hExtension : Edged (ObjectStore.withDot
        (orDefault (documentExtension spec) ObjectStore.defaultExtension)) := by
    unfold documentExtension
    split_ifs
    · exact edged_of_decide (by decide) (by decide)
    · cases spec.effectiveFormat <;> exact edged_of_decide (by decide) (by decide)
  intro pair hPair
  simp only [ObjectStore.PathVars.pairs, List.mem_cons, List.not_mem_nil, or_false] at hPair
  rcases hPair with hPair | hPair | hPair | hPair | hPair <;>
    rw [hPair]
  · exact edged_orDefault (edged_of_decide (by decide) (by decide)) _
  · exact hLabel
  · exact hName.edged
  · exact edged_ofNat generation
  · exact hExtension

theorem edged_documentPath (hFlat : writesHive spec = false) (hNs : isDnsLabel invNS = true)
    (hName : IsObjectName invName) (generation : Nat) :
    Edged (documentPathFor spec invNS invName generation) := by
  have hTemplate : Edged (documentTemplate spec) := by
    apply edged_orDefault
    have hDefaults : Edged ObjectStore.defaultPathTemplate ∧ Edged defaultDocumentPathTemplate := by
      rw [edged_iff_all, edged_iff_all]
      decide
    split_ifs
    · exact hDefaults.1
    · exact hDefaults.2
  have hPairs := @pairs_edged spec _ _ hNs hName generation
  rw [documentPathFor_eq hFlat]
  refine ⟨?_, ?_, ?_⟩
  · exact Text.replaceFrom_ne_nil (fun pair hPair => (hPairs pair hPair).1) hTemplate.1
  · exact Text.head_replaceAll (fun pair hPair => ⟨(hPairs pair hPair).1, (hPairs pair hPair).2.1⟩)
      hTemplate.2.1
  · exact Text.getLast_replaceFrom
      (fun pair hPair => ⟨(hPairs pair hPair).1, (hPairs pair hPair).2.2⟩) hTemplate.2.2 0

end Trimmed

/- What a name begins with is neither a dot nor a slash. -/
theorem dotSlash_append {front name rest : Text} (hName : IsObjectName name)
    (hHead : name.head? ≠ some '.') :
    ['.', '/'].isPrefixOf (front ++ (name ++ rest)) = ['.', '/'].isPrefixOf front := by
  cases name with
  | nil => exact absurd rfl hName.1
  | cons c name =>
    have hDot : '.' ≠ c := fun hEq => hHead (by rw [hEq]; rfl)
    have hSlash : '/' ≠ c := by
      intro hEq
      apply hName.notMem (c := '/') (by decide) (by decide)
      rw [hEq]
      exact List.mem_cons_self
    rcases front with _ | ⟨x, _ | ⟨y, front⟩⟩
    · simp [List.isPrefixOf, hDot]
    · simp [List.isPrefixOf, hSlash]
    · simp [List.isPrefixOf]

/- Of a path without white space only a `./` is cut off. -/
theorem Edged.trimmed {p : Text} (hEdged : Edged p) :
    Text.trimStart (Text.trimSpace p) ['.', '/'] = Text.trimStart p ['.', '/'] := by
  have hTrim : Text.trimSpace p = p := Text.trimFunc_eq_self_of_ends hEdged.2.1 hEdged.2.2
  rw [hTrim]

theorem Edged.readAsIs {p : Text} (hEdged : Edged p) (hStart : ['.', '/'].isPrefixOf p = false) :
    Text.trimStart (Text.trimSpace p) ['.', '/'] = p := by
  rw [hEdged.trimmed, Text.trimStart, hStart]
  rfl

----
-- Candidates Of A Cleanup
----

theorem mem_dedupeStrings {values : List Text} {v : Text} :
    v ∈ dedupeStrings values ↔ v ∈ values := by
  unfold dedupeStrings
  rw [List.mem_reverse, List.mem_dedup, List.mem_reverse]

theorem mem_cleanupCandidatePaths
    {spec : KollectSinkSpec} {invNS invName p : Text} {generation : Int} :
    p ∈ cleanupCandidatePaths spec invNS invName generation ↔
      p = documentPathFor spec invNS invName generation ∨ spec.type ≠ .other ∧
        (spec.indexEnabled = true ∧
          p = (resolve spec invNS invName generation ⟨false, []⟩).indexPath ∨
        p = (resolve spec invNS invName generation ⟨false, []⟩).setManifestPath) := by
  unfold cleanupCandidatePaths documentPathFor
  by_cases hStore : spec.type = .other
  · simp [hStore]
  · have hEnabled :
        (resolve spec invNS invName generation ⟨false, []⟩).indexEnabled = spec.indexEnabled := rfl
    rw [if_neg hStore, if_neg hStore, mem_dedupeStrings, hEnabled]
    cases spec.indexEnabled <;> simp [hStore]

theorem Inventory.mem_cleanupKeys {inv : Inventory} {spec : KollectSinkSpec}
    {generation : Int} {m : KeyMatcher} :
    m ∈ inv.cleanupKeys spec generation ↔ ∃ p ∈ cleanupCandidatePaths spec inv.pathNamespace
          inv.name generation,
        m ∈ cleanupMatchers p := by
  unfold Inventory.cleanupKeys
  rw [inv.fromObjectPath_whole, List.mem_flatMap]

theorem ResolvedLayout.setManifestPath_eq (r : ResolvedLayout) :
    r.setManifestPath = ("inventory/" : Text) ++ r.inventoryNamespace ++ '/' ::
        (r.inventoryName ++ (".manifest" : Text) ++ '.' :: ("json" : Text)) := by
  have hTemplate : ("inventory/{namespace}/{name}.manifest.json" : Text) =
      ("inventory/" : Text) ++ (("{namespace}" : Text) ++
        (("/" : Text) ++ (("{name}" : Text) ++ ((".manifest.json" : Text) ++ [])))) := by
    decide +kernel
  have hOpening : ∀ pair ∈ inventoryPlaceholders r, pair.1.head? = some '\x7b' := by
    simp [inventoryPlaceholders]
  have hNamespace := @Text.replaceAll_key
    (inventoryPlaceholders r) "{namespace}" r.inventoryNamespace
  have hName := @Text.replaceAll_key (inventoryPlaceholders r) "{name}" r.inventoryName
  have hEnd : (".manifest.json" : Text) = (".manifest" : Text) ++ '.' :: ("json" : Text) := by
    decide
  rw [ResolvedLayout.setManifestPath, renderInventoryPath,
    hTemplate, Text.replaceAll_literal hOpening (by decide), hNamespace (by decide) rfl,
    Text.replaceAll_literal hOpening (by decide), hName (by decide) rfl,
    Text.replaceAll_literal hOpening (by decide), Text.replaceAll_nil, List.append_nil, hEnd]
  simp

----
-- Which Specs Are Covered
----

/- The name occurs once, and nothing else is in its place. -/
structure NameEndsStem (spec : KollectSinkSpec) (front back : Text) : Prop where
  template : documentTemplate spec = front ++ (("{name}" : Text) ++ back)
  front_unnamed : Text.contains front "{name}" = false
  back_unnamed : Text.contains back "{name}" = false
  start : ∀ ns, isDnsLabel ns = true → ['.', '/'].isPrefixOf (rendered spec ns front) = false
  ending : ∀ ns, isDnsLabel ns = true → StemEnding (rendered spec ns front) (rendered spec ns back)

/- The parts of each inventory can be found again. -/
inductive SweepsParts (spec : KollectSinkSpec) : Prop
  | hive (hHive : writesHive spec = true) : SweepsParts spec
  | template (hFlat : writesHive spec = false) (front back : Text)
      (hEnds : NameEndsStem spec front back) : SweepsParts spec

section Covered

variable {spec : KollectSinkSpec}

theorem covers_of_hive (hHive : writesHive spec = true) : Covers spec := by
  unfold writesHive at hHive
  rw [Bool.and_eq_true, decide_eq_true_eq] at hHive
  intro inv part exported current
  have hNs := inv.isDnsLabel_pathNamespace
  have hPath : ∀ name (generation : Int), IsObjectName name →
      documentPathFor spec inv.pathNamespace name generation =
        hiveFront spec.cluster inv.pathNamespace ++ (name ++ '/' :: hiveFile generation) := by
    intro name generation hName
    unfold documentPathFor ObjectStore.objectPath
    rw [if_pos hHive.1, if_pos hHive.2, parquetObjectPath_eq hNs hName]
  have hName : IsObjectName inv.name := inv.name_runes
  refine ⟨⟨hiveFront spec.cluster inv.pathNamespace ++ inv.name, .hive⟩, ?_, ?_⟩
  · rw [Inventory.mem_cleanupKeys]
    refine ⟨_, mem_cleanupCandidatePaths.mpr (.inl rfl), ?_⟩
    rw [hPath _ _ hName, cleanupMatchers_hive]
    exact List.mem_singleton_self _
  · rw [inv.documentPath_eq, hPath _ _ (isObjectName_written inv _ _),
      KeyMatcher.matchesKey_hive_iff]
    exact ⟨partMarker part.index part.total, hiveFile exported,
      optionalPart_marker _ _, isGenerationFile_hiveFile exported, by simp⟩

theorem documentPathFor_around (hFlat : writesHive spec = false) {front back : Text}
    (hTemplate : documentTemplate spec = front ++ (("{name}" : Text) ++ back))
    (hFront : Text.contains front "{name}" = false)
    (hUndated : Text.contains (documentTemplate spec) "{generation}" = false) (invNS invName : Text)
    (generation : Int) :
    documentPathFor spec invNS invName generation = rendered spec invNS front ++ (invName ++
        Text.replaceAll (documentVars spec invNS invName generation).pairs back) := by
  have hFrontUndated : Text.contains front "{generation}" = false := by
    refine Text.not_contains_of_infix ?_ hUndated
    rw [hTemplate]
    exact (List.prefix_append _ _).isInfix
  rw [documentPathFor_eq hFlat, hTemplate, replaceAll_around_name,
    replaceAll_piece spec hFront hFrontUndated]
  rfl

theorem covers_of_nameEndsStem (hFlat : writesHive spec = false)
    (hUndated : Text.contains (documentTemplate spec) "{generation}" = false) {front back : Text}
    (hEnds : NameEndsStem spec front back) : Covers spec := by
  have hBackUndated : Text.contains back "{generation}" = false := by
    refine Text.not_contains_of_infix ?_ hUndated
    rw [hEnds.template, ← List.append_assoc]
    exact (List.suffix_append _ _).isInfix
  intro inv part exported current
  have hNs := inv.isDnsLabel_pathNamespace
  have hPath : ∀ name (generation : Int),
      documentPathFor spec inv.pathNamespace name generation =
        rendered spec inv.pathNamespace front ++
          (name ++ rendered spec inv.pathNamespace back) := by
    intro name generation
    rw [documentPathFor_around hFlat hEnds.template hEnds.front_unnamed hUndated,
      replaceAll_piece spec hEnds.back_unnamed hBackUndated]
  have hName : IsObjectName inv.name := inv.name_runes
  have hEdged := edged_documentPath hFlat hNs hName current
  have hStart := hEnds.start _ hNs
  rw [← dotSlash_append hName (head_isDnsSubdomain inv.validName), ← hPath _ current] at hStart
  rcases cleanupMatchers_single (hEdged.readAsIs hStart) hEdged.1 with ⟨m, hMatchers, hFor⟩
  rw [hPath] at hFor
  refine ⟨m, ?_, ?_⟩
  · rw [Inventory.mem_cleanupKeys]
    refine ⟨_, mem_cleanupCandidatePaths.mpr (.inl rfl), ?_⟩
    rw [hMatchers]
    exact List.mem_singleton_self m
  · rw [inv.documentPath_eq, hPath]
    exact matcherFor_ending (hEnds.ending _ hNs) hName hFor (optionalPart_marker _ _)

/- An inventory with the dotted name. -/
def dottedInventory (ns : Text) (hNs : isDnsLabel ns = true) : Inventory :=
  inventoryAt ns dottedName hNs (by decide)

section Necessary

variable {ns front : Text} {ending : Text → Text}

variable (hIndex : spec.type = .other ∨ spec.indexEnabled = false) (hCovers : Covers spec)
  (hNs : isDnsLabel ns = true)

include hIndex hCovers hNs in
theorem covered_cases (hPath : ∀ name (generation : Int),
      documentPathFor spec ns name generation = front ++ (name ++ ending name)) (part : PartNumber)
    {name : Text} (hName : name = dottedName ++ partMarker part.index part.total) :
    (∃ m ∈ cleanupMatchers (front ++ (dottedName ++ ending dottedName)),
      m.matchesKey (front ++ (name ++ ending name)) = true) ∨ ∃ suffix, optionalPart suffix = true ∧
      front ++ (name ++ ending name) = manifestKey ns suffix := by
  rcases hCovers (dottedInventory ns hNs) part 0 0 with ⟨m, hMem, hMatch⟩
  have hNamespace : (dottedInventory ns hNs).pathNamespace = ns := rfl
  have hDotted : (dottedInventory ns hNs).name = dottedName := rfl
  rw [Inventory.documentPath_eq, hNamespace, hDotted, ← hName, hPath] at hMatch
  rw [Inventory.mem_cleanupKeys, hNamespace, hDotted] at hMem
  rcases hMem with ⟨p, hP, hM⟩
  rw [mem_cleanupCandidatePaths] at hP
  rcases hP with hP | ⟨hGit, ⟨hEnabled, -⟩ | hP⟩
  · rw [hP, hPath] at hM
    exact Or.inl ⟨m, hM, hMatch⟩
  · rcases hIndex with hStore | hOff
    · exact absurd hStore hGit
    · rw [hEnabled] at hOff
      cases hOff
  · have hHead : (("inventory/" : Text) ++ ns).head? = some 'i' := by
      have hI : ("inventory/" : Text).head? = some 'i' := by decide
      rw [List.head?_append, hI]
      rfl
    have hManifest : IsObjectName (dottedName ++ (".manifest" : Text)) :=
      isObjectName_iff_all.mpr (by decide)
    rw [hP, ResolvedLayout.setManifestPath_eq] at hM
    dsimp only [resolve] at hM
    rw [cleanupMatchers_flat hHead (by decide) hManifest Inventory.json_runes,
      List.mem_singleton] at hM
    rw [hM, KeyMatcher.matchesKey_flat_iff] at hMatch
    exact Or.inr hMatch

theorem whole_matched (hFlat : writesHive spec = false)
    (hIndex : spec.type = .other ∨ spec.indexEnabled = false)
    (hCovers : Covers spec) (hNs : isDnsLabel ns = true)
    (hPath : ∀ name (generation : Int),
      documentPathFor spec ns name generation = front ++ (name ++ ending name)) {p : Text}
    (hP : front ++ (dottedName ++ ending dottedName) = p) : ['.', '/'].isPrefixOf p = false ∧
      ∃ m, cleanupMatchers p = [m] ∧ MatcherFor p m ∧ m.matchesKey p = true := by
  have hEdged := edged_documentPath hFlat hNs isObjectName_dottedName 0
  rw [hPath, hP] at hEdged
  have hCases := covered_cases hIndex hCovers hNs hPath .whole (List.append_nil dottedName).symm
  rw [hP] at hCases
  have hStart : ['.', '/'].isPrefixOf p = false := by
    rw [Bool.eq_false_iff]
    intro hDotSlash
    rcases List.isPrefixOf_iff_prefix.mp hDotSlash with ⟨q, hQ⟩
    rcases hCases with ⟨m, hMem, hMatch⟩ | ⟨suffix, hSuffix, hKey⟩
    · have hRead : Text.trimStart (Text.trimSpace p) ['.', '/'] = q := by
        rw [hEdged.trimmed, ← hQ, Text.trimStart_append]
      by_cases hNe : q = []
      · have hLength := congrArg List.length hQ
        rw [← hP, hNe] at hLength
        have hThree : dottedName.length = 3 := by decide
        simp only [List.length_append, List.length_cons, List.length_nil, hThree] at hLength
        omega
      · rcases cleanupMatchers_single hRead hNe with ⟨m', hMatchers, hFor⟩
        rw [hMatchers, List.mem_singleton] at hMem
        have hNot := matchesKey_dotSlash hFor
        rw [← hMem] at hNot
        rw [← hQ] at hMatch
        exact absurd hMatch (Bool.eq_false_iff.mp hNot)
    · rw [hKey, (manifestKey_shape hSuffix).1] at hDotSlash
      cases hDotSlash
  rcases cleanupMatchers_single (hEdged.readAsIs hStart) hEdged.1 with ⟨m, hMatchers, hFor⟩
  refine ⟨hStart, m, hMatchers, hFor, ?_⟩
  rcases hCases with ⟨m', hMem, hMatch⟩ | ⟨suffix, hSuffix, hKey⟩
  · rw [hMatchers, List.mem_singleton] at hMem
    rw [← hMem]
    exact hMatch
  · cases hFor with
    | hive _ _ hHive =>
      rw [hKey, (manifestKey_shape hSuffix).2] at hHive
      cases hHive
    | extension hCut _ _ _ => exact KeyMatcher.matchesKey_flat_iff.mpr ⟨[], rfl, hCut⟩
    | plain _ _ => exact KeyMatcher.matchesKey_flat_iff.mpr ⟨[], rfl, by simp⟩

include hIndex hCovers hNs in
theorem part_matched (hPath : ∀ name (generation : Int),
      documentPathFor spec ns name generation = front ++ (name ++ ending name)) {m : KeyMatcher}
    (hMatchers : cleanupMatchers (front ++ (dottedName ++ ending dottedName)) = [m]) (index : Nat)
    (hRange : index = 1 ∨ index = 2) :
    m.matchesKey (front ++ (dottedName ++ partSuffix index 2 ++
        ending (dottedName ++ partSuffix index 2))) = true := by
  rcases covered_cases hIndex hCovers hNs hPath
    ⟨index, 2, by omega, by omega⟩ rfl with
    ⟨m', hMem, hMatch⟩ | ⟨suffix, hSuffix, hKey⟩
  · rw [hMatchers, List.mem_singleton] at hMem
    rw [← hMem]
    exact hMatch
  · exact absurd hKey (manifest_matches_no_part hNs hSuffix index)

end Necessary

/- A second placeholder adds the suffix, and its dot, again. -/
theorem back_unnamed_of_count {ns back : Text} (hCount :
      (Text.replaceAll
        (documentVars spec ns (dottedName ++ partSuffix 1 2) 0).pairs back).count '.' ≤
      (Text.replaceAll (documentVars spec ns dottedName 0).pairs back).count '.') :
    Text.contains back "{name}" = false := by
  rw [Bool.eq_false_iff]
  intro hNamed
  rcases Text.exists_first_occurrence (by decide) hNamed with ⟨before, after, hBack, -⟩
  have hDots : dottedName.count '.' = 1 ∧ (dottedName ++ partSuffix 1 2).count '.' = 2 := by decide
  have hMore : ∀ piece : Text,
      (Text.replaceAll (documentVars spec ns dottedName 0).pairs piece).count '.' ≤
      (Text.replaceAll
        (documentVars spec ns (dottedName ++ partSuffix 1 2) 0).pairs piece).count '.' := by
    intro piece
    apply Text.count_replaceFrom_le
    refine .cons ⟨rfl, Nat.le_refl _⟩ (.cons ⟨rfl, Nat.le_refl _⟩
      (.cons ⟨rfl, ?_⟩ (.cons ⟨rfl, Nat.le_refl _⟩ (.cons ⟨rfl, Nat.le_refl _⟩ .nil))))
    exact Nat.le_trans (Nat.le_of_eq hDots.1)
      (Nat.le_trans (Nat.le_succ 1) (Nat.le_of_eq hDots.2.symm))
  have hName : ∀ name : Text, (documentVars spec ns name 0).name = name := fun _ => rfl
  rw [hBack, replaceAll_around_name, replaceAll_around_name, hName, hName] at hCount
  simp only [List.count_append] at hCount hDots
  have hBefore := hMore before
  have hAfter := hMore after
  omega

theorem sweepsParts_of_covers (hNamed : Text.contains (documentTemplate spec) "{name}" = true)
    (hUndated : Text.contains (documentTemplate spec) "{generation}" = false)
    (hIndex : spec.type = .other ∨ spec.indexEnabled = false) (hCovers : Covers spec) :
    SweepsParts spec := by
  cases hFlat : writesHive spec with
  | true => exact .hive hFlat
  | false =>
    rcases Text.exists_first_occurrence (by decide) hNamed with ⟨front, back, hTemplate, hFront⟩
    have hBackUndated : Text.contains back "{generation}" = false := by
      refine Text.not_contains_of_infix ?_ hUndated
      rw [hTemplate, ← List.append_assoc]
      exact (List.suffix_append _ _).isInfix
    have hPath : ∀ ns name (generation : Int),
        documentPathFor spec ns name generation = rendered spec ns front ++ (name ++
            Text.replaceAll (documentVars spec ns name 0).pairs back) := by
      intro ns name generation
      rw [documentPathFor_around hFlat hTemplate hFront hUndated]
      congr 2
      exact replaceAll_undated (documentVars spec ns name 0) hBackUndated generation 0
    have hBack : Text.contains back "{name}" = false := by
      have hLabel : isDnsLabel ("a" : Text) = true := by decide
      rcases whole_matched hFlat hIndex hCovers hLabel
        (hPath "a") rfl with ⟨-, m, hMatchers, hFor, hSelf⟩
      have hPart := part_matched hIndex hCovers hLabel (hPath "a") hMatchers 1 (Or.inl rfl)
      have hLe := count_dots_le hFor hSelf hPart
      have hDots : dottedName.count '.' = 1 ∧ (dottedName ++ partSuffix 1 2).count '.' = 2 := by
        decide
      apply @back_unnamed_of_count spec "a"
      simp only [List.count_append] at hLe hDots
      omega
    have hConst : ∀ ns name,
        Text.replaceAll (documentVars spec ns name 0).pairs
          back = rendered spec ns back := fun ns name =>
      replaceAll_piece spec hBack hBackUndated ns name 0
    refine .template hFlat front back ⟨hTemplate, hFront, hBack, ?_, ?_⟩
    · intro ns hNs
      have hStart := (whole_matched hFlat hIndex hCovers hNs (hPath ns) rfl).1
      rw [dotSlash_append isObjectName_dottedName (by decide)] at hStart
      exact hStart
    · intro ns hNs
      rcases whole_matched hFlat hIndex hCovers hNs (hPath ns) rfl with ⟨-, m, hMatchers, hFor, -⟩
      have hParts := part_matched hIndex hCovers hNs (hPath ns) hMatchers
      simp only [hConst] at hFor hParts
      exact stemEnding_of_matches hFor hParts

end Covered

theorem documentTemplate_named {spec : KollectSinkSpec}
    (hValid : ObjectStore.validatePathTemplate spec.pathTemplate = .ok ()) :
    Text.contains (documentTemplate spec) "{name}" = true := by
  unfold documentTemplate orDefault
  unfold ObjectStore.validatePathTemplate at hValid
  dsimp only at hValid
  split_ifs at hValid ⊢ with hEmpty hStore hTraversal hNames
  · decide +kernel
  · decide +kernel
  · exact hNames.2

theorem documentTemplate_undated {spec : KollectSinkSpec}
    (hUndated : Text.contains spec.pathTemplate "{generation}" = false) :
    Text.contains (documentTemplate spec) "{generation}" = false := by
  unfold documentTemplate orDefault
  split_ifs
  · decide +kernel
  · decide +kernel
  · exact Text.not_contains_of_infix (Text.trimFunc_infix _ _) hUndated

/-
  A cleanup reaches every part of every export if the paths are hive paths or the template's name
  ends the stem of the file. Without an index path as a further candidate, these are the only cases.
-/
theorem covers_iff_sweepsParts (spec : KollectSinkSpec)
    (hValid : ObjectStore.validatePathTemplate spec.pathTemplate = .ok ())
    (hUndated : Text.contains spec.pathTemplate "{generation}" = false) :
    (SweepsParts spec → Covers spec) ∧
      (spec.type = .other ∨ spec.indexEnabled = false → Covers spec → SweepsParts spec) := by
  have hNone := documentTemplate_undated hUndated
  refine ⟨?_, sweepsParts_of_covers (documentTemplate_named hValid) hNone⟩
  intro hSweeps
  cases hSweeps with
  | hive hHive => exact covers_of_hive hHive
  | template hFlat front back hEnds => exact covers_of_nameEndsStem hFlat hNone hEnds

/- The name as a directory of the namespace's file. -/
def nameDirTemplate : Text := "{name}/{namespace}"

theorem isDnsLabel_a : isDnsLabel "a" = true := by decide

theorem isDnsSubdomain_b : isDnsSubdomain "b" = true := by decide

def plainInventory : Inventory := inventoryAt "a" "b" isDnsLabel_a isDnsSubdomain_b

/-
  With the name as a directory the first of two parts is written at `b.part-0001-of-0002/a`, while
  the cleanup of an object store, and of a Git sink, looks for `b/a` and for a suffix after it.
-/
theorem name_directory_is_not_covered : ObjectStore.validatePathTemplate nameDirTemplate = .ok () ∧
      Text.contains nameDirTemplate "{generation}" = false ∧ ¬ Covers (storeWith nameDirTemplate) ∧
      ¬ Covers { storeWith nameDirTemplate with type := .git } := by
  have hNone : ∀ spec : KollectSinkSpec,
      (plainInventory.cleanupKeys spec 0).any (fun m =>
        m.matchesKey (plainInventory.documentPath spec 0 1 2)) = false → ¬ Covers spec := by
    intro spec hAny hCovers
    rcases hCovers plainInventory ⟨1, 2, by decide, by decide⟩ 0 0 with ⟨m, hMem, hMatch⟩
    rw [List.any_eq_false] at hAny
    exact hAny m hMem hMatch
  refine ⟨by decide +kernel, by decide +kernel, hNone _ ?_, hNone _ ?_⟩
  · decide +kernel
  · decide +kernel

/- The default template of an object store is covered. -/
theorem default_template_is_covered : SweepsParts (storeWith []) ∧ Covers (storeWith []) := by
  have hFront : ∀ ns,
      rendered (storeWith []) ns "inventory/{namespace}/" =
        (("inventory/" : Text) ++ ns) ++ ['/'] := by
    intro ns
    let vars := documentVars (storeWith []) ns [] 0
    have hSplit : ("inventory/{namespace}/" : Text) =
        ("inventory/" : Text) ++ (("{namespace}" : Text) ++ (['/'] ++ [])) := by
      decide
    have hNamespace := @Text.replaceAll_key vars.pairs "{namespace}" ns
    unfold rendered
    rw [hSplit, Text.replaceAll_literal (pairs_opening vars)
      (by decide), hNamespace (by decide) rfl,
      Text.replaceAll_literal (pairs_opening vars) (by decide), Text.replaceAll_nil]
    simp
  have hBack : ∀ ns, rendered (storeWith []) ns ".json" = '.' :: ("json" : Text) := by
    intro ns
    have hLiteral := Text.replaceAll_literal (pairs_opening (documentVars (storeWith []) ns [] 0))
      (show '\x7b' ∉ (".json" : Text) by decide) []
    rw [List.append_nil, Text.replaceAll_nil] at hLiteral
    exact hLiteral.trans (by decide)
  have hEnds : NameEndsStem (storeWith []) "inventory/{namespace}/" ".json" := by
    refine ⟨by decide +kernel, by decide, by decide, ?_, ?_⟩
    · intro ns _
      have hI : ("inventory/" : Text) = 'i' :: ("nventory/" : Text) := by decide
      rw [hFront, hI]
      rfl
    · intro ns _
      rw [hFront, hBack]
      refine .extension (by decide) (by decide) ?_
      unfold isHivePath
      rw [Path.splitFile_append _ List.not_mem_nil]
      rfl
  have hSweeps : SweepsParts (storeWith []) := .template rfl _ _ hEnds
  exact ⟨hSweeps, (covers_iff_sweepsParts (storeWith []) (by decide) (by decide)).1 hSweeps⟩

end Sink
end Kollect
