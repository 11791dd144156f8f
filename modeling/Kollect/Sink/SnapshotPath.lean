import Kollect.Sink.Identity
import Kollect.Sink.Layout

/-
  Where the parts of a snapshot are written and which objects a cleanup may remove
  (`sink/objectstore/path.go`, `sink/export.go`, `sink/cleanup.go`).

  The path of a part is rendered from the namespace and the name read back from the part's object
  path, so the part marker becomes a part of the name. A name that ends in such a marker itself is
  then taken for a part of another inventory.

  Key theorems include:
    * `cleanupMatchers_hive`
    * `FileTemplate.objectPath_eq`
    * `cleanupMatchers_flat`
-/

namespace Kollect
namespace Sink

open Export

----
-- Rendering
----

namespace ObjectStore

def defaultPathTemplate : Text := "inventory/{namespace}/{name}.json"

def defaultExtension : Text := ".json"

structure PathVars where
  cluster : Text
  namespace_ : Text
  name : Text
  generation : Int
  extension : Text

/- An extension has its dot. -/
def withDot (ext : Text) : Text := if ['.'].isPrefixOf ext then ext else '.' :: ext

def PathVars.pairs (vars : PathVars) : List (Text × Text) :=
  [("{cluster}", orDefault vars.cluster "default"), ("{namespace}", vars.namespace_),
    ("{name}", vars.name), ("{generation}", Text.ofInt vars.generation),
    ("{extension}", withDot (orDefault vars.extension defaultExtension))]

def renderPathTemplate (template : Text) (vars : PathVars) : Text :=
  Text.replaceAll vars.pairs (orDefault template defaultPathTemplate)

/- `[a-zA-Z0-9._-]`. -/
def isHiveRune (c : Char) : Bool := c.isAlphanum || c = '.' || c = '_' || c = '-'

/- Every run of other runes becomes one underscore. -/
def sanitizeHiveSegment (value : Text) : Text :=
  Text.collapseRuns (fun c => !isHiveRune c) 1 '_' [] (Text.trimSpace value)

/- The cluster segment of a hive path. -/
def hiveCluster (cluster : Text) : Text :=
  if sanitizeHiveSegment cluster = [] then "default"
  else sanitizeHiveSegment cluster

def parquetObjectPath (cluster invNamespace invName : Text) (generation : Int) : Text :=
  ("inventory/cluster=" : Text) ++ (hiveCluster cluster ++
    (("/ns=" : Text) ++ (sanitizeHiveSegment invNamespace ++
      (("/name=" : Text) ++ (sanitizeHiveSegment invName ++
        (("/generation=" : Text) ++ (Text.ofInt generation ++ (".parquet" : Text))))))))

def isParquetFormat (spec : KollectSinkSpec) : Bool :=
  decide (spec.objectStoreFormat = some .parquet)

def pathVars (spec : KollectSinkSpec) (invNamespace invName : Text)
    (generation : Int) : PathVars where
  cluster := Text.trimSpace spec.cluster
  namespace_ := invNamespace
  name := invName
  generation := generation
  extension := defaultExtension

def objectPath (spec : KollectSinkSpec) (invNamespace invName : Text) (generation : Int) : Text :=
  if isParquetFormat spec then parquetObjectPath spec.cluster invNamespace invName generation
  else renderPathTemplate spec.pathTemplate (pathVars spec invNamespace invName generation)

end ObjectStore

----
-- Written Paths And Cleanup Candidates
----

variable (inv : Inventory) (spec : KollectSinkSpec) (generation : Int)

/-
  The path a part is written at: the namespace and the name are read from the object path of the
  request.
-/
def Inventory.writtenPath (index total : Nat) : Text :=
  let identity :=
    ObjectStore.inventoryFromObjectPath (partitionObjectPath inv.objectPath index total)
  ObjectStore.objectPath spec identity.1 identity.2 generation

theorem Inventory.writtenPath_eq (index total : Nat) :
    inv.writtenPath spec generation index total = ObjectStore.objectPath spec inv.pathNamespace
        (inv.name ++ partMarker index total) generation := by
  unfold Inventory.writtenPath
  rw [inv.fromObjectPath_part]

/- The first occurrence of each text is kept. -/
def dedupeStrings (values : List Text) : List Text := values.reverse.dedup.reverse

def cleanupCandidatePaths (spec : KollectSinkSpec) (invNS invName : Text)
    (generation : Int) : List Text :=
  if spec.type = .other then [ObjectStore.objectPath spec invNS invName generation]
  else
    let resolved := resolve spec invNS invName generation ⟨false, []⟩
    dedupeStrings ([resolved.documentPath] ++
        (if resolved.indexEnabled then [resolved.indexPath] else []) ++ [resolved.setManifestPath])

/-
  The matchers of an inventory's cleanup, whose request has the object path without a part marker.
-/
def Inventory.cleanupKeys : List KeyMatcher :=
  let identity := ObjectStore.inventoryFromObjectPath inv.objectPath
  (cleanupCandidatePaths spec identity.1 identity.2 generation).flatMap cleanupMatchers

theorem Inventory.fromObjectPath_whole (inv : Inventory) :
    ObjectStore.inventoryFromObjectPath inv.objectPath = (inv.pathNamespace, inv.name) := by
  have hIdentity := inv.fromObjectPath_part 1 1
  have hPath : partitionObjectPath inv.objectPath 1 1 = inv.objectPath := rfl
  have hMarker : partMarker 1 1 = [] := rfl
  rw [hPath, hMarker, List.append_nil] at hIdentity
  exact hIdentity

variable {spec : KollectSinkSpec}

theorem Inventory.cleanupKeys_eq (hType : spec.type = .other) (inv : Inventory) (generation : Int) :
    inv.cleanupKeys spec generation =
      cleanupMatchers (ObjectStore.objectPath spec inv.pathNamespace inv.name generation) := by
  unfold Inventory.cleanupKeys cleanupCandidatePaths
  simp only [inv.fromObjectPath_whole, if_pos hType,
    List.flatMap_cons, List.flatMap_nil, List.append_nil]

----
-- Parts And Names
----

/- One part of a set: part `index` of `total`. -/
structure PartNumber where
  index : Nat
  total : Nat
  index_pos : 1 ≤ index
  index_le : index ≤ total

def PartNumber.whole : PartNumber := ⟨1, 1, Nat.le_refl 1, Nat.le_refl 1⟩

/- The runes of an inventory's name, with or without a part. -/
def IsObjectName (name : Text) : Prop := name ≠ [] ∧ ∀ c ∈ name, isDnsChar c = true ∨ c = '.'

variable {name : Text}

theorem isObjectName_iff_all :
    IsObjectName name ↔ (!name.isEmpty && name.all fun c => isDnsChar c || c == '.') = true := by
  simp [IsObjectName]

theorem isObjectName_written (inv : Inventory) (index total : Nat) :
    IsObjectName (inv.name ++ partMarker index total) := by
  refine ⟨by simp [inv.name_runes.1], ?_⟩
  intro c hC
  rcases List.mem_append.mp hC with hName | hMarker
  · exact inv.name_runes.2 c hName
  · rcases mem_partMarker hMarker with hDigit | hOther
    · exact Or.inl (by simp [isDnsChar, hDigit])
    · have hRunes : (".part-of" : Text).all (fun c => isDnsChar c || c = '.') = true := by decide
      have hRune := List.all_eq_true.mp hRunes c hOther
      simpa using hRune

theorem IsObjectName.notMem (hName : IsObjectName name) {c : Char} (hC : isDnsChar c = false)
    (hDot : c ≠ '.') : c ∉ name := by
  intro hMem
  rcases hName.2 c hMem with hDns | hIs
  · rw [hC] at hDns
    cases hDns
  · exact hDot hIs

theorem Inventory.isDnsLabel_pathNamespace (inv : Inventory) :
    isDnsLabel inv.pathNamespace = true := by
  have hValid := inv.validNamespace
  unfold InventoryIdentity.pathNamespace
  cases hKind : inv.kind with
  | cluster =>
    have hLabel : isDnsLabel clusterInventoryPathNamespace = true := by decide
    exact hLabel
  | namespaced =>
    rw [hKind] at hValid
    exact hValid

theorem slash_notMem_part {part : Text} (hPart : optionalPart part = true) : '/' ∉ part := by
  rcases optionalPart_cases hPart with hEmpty | hSuffix
  · rw [hEmpty]
    exact List.not_mem_nil
  · exact hSuffix.2.1

----
-- Hive Paths
----

variable {s : Text}

theorem collapseRuns_eq_self {p : Char → Bool} {mark : Char} (hS : ∀ c ∈ s, p c = false) :
    Text.collapseRuns p 1 mark [] s = s := by
  induction s with
  | nil => rfl
  | cons c s ih =>
    rw [List.forall_mem_cons] at hS
    unfold Text.collapseRuns
    simp [hS.1, ih hS.2]

theorem sanitizeHiveSegment_eq_self (hS : ∀ c ∈ s, isDnsChar c = true ∨ c = '.') :
    ObjectStore.sanitizeHiveSegment s = s := by
  have hRunes : ∀ c ∈ s, isPathRune c = true := by
    intro c hC
    simp only [isPathRune, Bool.or_eq_true, decide_eq_true_eq]
    exact Or.inl (hS c hC)
  unfold ObjectStore.sanitizeHiveSegment
  rw [trimSpace_of_isPathRune hRunes]
  apply collapseRuns_eq_self
  intro c hC
  have hHive : ObjectStore.isHiveRune c = true := by
    unfold ObjectStore.isHiveRune Char.isAlphanum Char.isAlpha
    rcases hS c hC with hDns | hDot
    · simp only [isDnsChar, Bool.or_eq_true, decide_eq_true_eq] at hDns
      rcases hDns with (hLower | hDigit) | hDash
      · simp [hLower]
      · simp [hDigit]
      · simp [hDash]
    · simp [hDot]
  simp [hHive]

/- The partition of an inventory, up to its name. -/
def hiveFront (cluster ns : Text) : Text :=
  ("inventory/cluster=" : Text) ++
    (ObjectStore.hiveCluster cluster ++ (("/ns=" : Text) ++ (ns ++ ("/name=" : Text))))

def hiveFile (generation : Int) : Text :=
  ("generation=" : Text) ++ (Text.ofInt generation ++ (".parquet" : Text))

theorem parquetObjectPath_eq {cluster ns : Text} (hNs : isDnsLabel ns = true)
    (hName : IsObjectName name) (generation : Int) :
    ObjectStore.parquetObjectPath cluster ns name generation =
      hiveFront cluster ns ++ (name ++ '/' :: hiveFile generation) := by
  have hRunes := (isDnsLabel_mem hNs).2
  have hSep : ("/generation=" : Text) = '/' :: ("generation=" : Text) := by decide
  unfold ObjectStore.parquetObjectPath hiveFront hiveFile
  rw [sanitizeHiveSegment_eq_self (fun c hC => Or.inl (hRunes c hC)),
    sanitizeHiveSegment_eq_self hName.2, hSep]
  simp only [List.append_assoc, List.cons_append]

theorem trimmed_path {path : Text} {c d : Char} (hHead : path.head? = some c)
    (hLast : path.getLast? = some d) (hC : Text.isSpace c = false ∧ c ≠ '.')
    (hD : Text.isSpace d = false) : Text.trimStart (Text.trimSpace path) ['.', '/'] = path := by
  have hTrim : Text.trimSpace path = path := by
    apply Text.trimFunc_eq_self_of_ends
    · intro e hE
      rw [hHead] at hE
      rw [← Option.some.inj hE]
      exact hC.1
    · intro e hE
      rw [hLast] at hE
      rw [← Option.some.inj hE]
      exact hD
  rw [hTrim]
  unfold Text.trimStart
  rw [if_neg]
  intro hDot
  cases path with
  | nil => cases hHead
  | cons e path =>
    rw [List.isPrefixOf_cons_cons, Bool.and_eq_true, beq_iff_eq] at hDot
    exact hC.2 ((Option.some.inj hHead).symm.trans hDot.1.symm)

theorem cleanupMatchers_append {dir file : Text}
    (hTrim : Text.trimStart (Text.trimSpace (dir ++ '/' :: file)) ['.', '/'] = dir ++ '/' :: file)
    (hFile : '/' ∉ file) : cleanupMatchers (dir ++ '/' :: file) =
      if ("generation=" : Text).isPrefixOf file && Text.contains (dir ++ ['/']) "/name=" then
        [⟨dir, .hive⟩]
      else
        match Text.lastIndex '.' file with
        | some (dot + 1) => [⟨dir ++ ['/'] ++ file.take (dot + 1), .flat (file.drop (dot + 1))⟩]
        | _ => [⟨dir ++ ['/'] ++ file, .flat []⟩] := by
  have hEnd : Text.trimEnd (dir ++ ['/']) ['/'] = dir :=
    PathValidate.trimEnd_eq_iff.mpr (Or.inl rfl)
  unfold cleanupMatchers
  simp only [hTrim, Path.splitFile_append dir hFile, hEnd]
  refine (if_neg (by simp)).trans ?_
  split_ifs
  · rfl
  · cases Text.lastIndex '.' file with
    | none => rfl
    | some dot => cases dot <;> rfl

theorem slash_notMem_hiveFile (generation : Int) : '/' ∉ hiveFile generation := by
  have hDigits : '/' ∉ Nat.toDigits 10 generation.natAbs := by
    intro hMem
    have hDigit := Nat.isDigit_of_mem_toDigits (by decide) (by decide) hMem
    revert hDigit
    decide
  have hFront : '/' ∉ ("generation=" : Text) := by decide
  have hEnd : '/' ∉ (".parquet" : Text) := by decide
  have hInt : '/' ∉ Text.ofInt generation := by
    unfold Text.ofInt
    split_ifs <;> simp [hDigits]
  unfold hiveFile
  simp only [List.mem_append, not_or]
  exact ⟨hFront, hInt, hEnd⟩

theorem cleanupMatchers_hive (cluster ns name : Text) (generation : Int) :
    cleanupMatchers (hiveFront cluster ns ++ (name ++ '/' :: hiveFile generation)) =
      [⟨hiveFront cluster ns ++ name, .hive⟩] := by
  have hHead : (hiveFront cluster ns ++ name ++ '/' :: hiveFile generation).head? = some 'i' := by
    have hFirst : ("inventory/cluster=" : Text).head? = some 'i' := by decide
    unfold hiveFront
    simp only [List.head?_append, hFirst, Option.some_or]
  have hLast :
      (hiveFront cluster ns ++ name ++ '/' :: hiveFile generation).getLast? = some 't' := by
    have hEnd : (".parquet" : Text).getLast? = some 't' := by decide
    unfold hiveFile
    simp only [List.getLast?_append, List.getLast?_cons, hEnd, Option.some_or, Option.getD_some]
  have hTagged : Text.contains (hiveFront cluster ns ++ name ++ ['/']) "/name=" = true := by
    have hSplit : hiveFront cluster ns ++ name ++ ['/'] = (("inventory/cluster=" : Text) ++
            (ObjectStore.hiveCluster cluster ++ (("/ns=" : Text) ++ ns))) ++
            (("/name=" : Text) ++ (name ++ ['/'])) := by
      unfold hiveFront
      simp only [List.append_assoc]
    rw [hSplit]
    exact Text.contains_append _ _ _
  have hGeneration : ("generation=" : Text).isPrefixOf (hiveFile generation) = true :=
    List.isPrefixOf_iff_prefix.mpr (List.prefix_append _ _)
  rw [← List.append_assoc, cleanupMatchers_append (trimmed_path hHead hLast (by decide) (by decide))
      (slash_notMem_hiveFile generation),
    hGeneration, hTagged]
  rfl

----
-- Template Paths
----

/- What the front of a template renders to. -/
def frontOf (spec : KollectSinkSpec) (front ns : Text) (generation : Int) : Text :=
  Text.replaceAll (ObjectStore.pathVars spec ns [] generation).pairs front

/-
  A template that ends in the namespace's directory and a file whose name begins with the
  inventory's name.
-/
structure FileTemplate (spec : KollectSinkSpec) (front ext : Text) : Prop where
  template :
    orDefault spec.pathTemplate ObjectStore.defaultPathTemplate =
      front ++ (("{namespace}" : Text) ++ '/' :: (("{name}" : Text) ++ ext))
  front_dir : front = [] ∨ ∃ dir, front = dir ++ ['/']
  front_name : Text.contains front "{name}" = false
  front_start :
    ∀ ns g, isDnsLabel ns = true →
      ∀ c ∈ (frontOf spec front ns g).head?, Text.isSpace c = false ∧ c ≠ '.'
  ext_word : ext = "{extension}" ∨ ∃ word, ext = '.' :: word ∧ ∀ c ∈ word, isDnsChar c = true

section Template

variable (vars : ObjectStore.PathVars)

theorem pairs_opening : ∀ pair ∈ vars.pairs, pair.1.head? = some '\x7b' := by
  simp [ObjectStore.PathVars.pairs]

theorem pairs_slash : ∀ pair ∈ vars.pairs, '/' ∉ pair.1.tail := by simp [ObjectStore.PathVars.pairs]

theorem replaceAll_dir_append {front : Text} (hDir : front = [] ∨ ∃ dir, front = dir ++ ['/'])
    (rest : Text) : Text.replaceAll vars.pairs (front ++ rest) =
      Text.replaceAll vars.pairs front ++ Text.replaceAll vars.pairs rest := by
  rcases hDir with hEmpty | ⟨dir, hDir⟩
  · rw [hEmpty]
    rfl
  · have hSlash : ∀ rest : Text,
        Text.replaceAll vars.pairs (['/'] ++ rest) = ['/'] ++ Text.replaceAll vars.pairs rest :=
      Text.replaceAll_literal (pairs_opening vars) (by decide)
    simp only [List.singleton_append] at hSlash
    rw [hDir, List.append_assoc, List.singleton_append,
      Text.replaceAll_append_sep (pairs_slash vars), Text.replaceAll_append_sep (pairs_slash vars),
      hSlash, hSlash, List.append_assoc]
    rfl

theorem replaceAll_unnamed {front : Text} (hFront : Text.contains front "{name}" = false)
    (name name' : Text) : Text.replaceAll ({ vars with name := name }).pairs front =
      Text.replaceAll ({ vars with name := name' }).pairs
        front := by
  apply Text.replaceFrom_congr
  intro tail hTail
  have hNone : ("{name}" : Text).isPrefixOf tail = false := by
    rw [Text.contains, List.any_eq_false] at hFront
    exact Bool.eq_false_iff.mpr (hFront tail ((List.mem_tails _ _).mpr hTail))
  simp only [ObjectStore.PathVars.pairs, List.find?_cons, hNone]

theorem replaceAll_extension {ext : Text} (hDefault : vars.extension = ObjectStore.defaultExtension)
    (hExt : ext = "{extension}" ∨ ∃ word, ext = '.' :: word ∧ ∀ c ∈ word, isDnsChar c = true) :
    Text.replaceAll vars.pairs ext =
      if ext = "{extension}" then ObjectStore.defaultExtension
      else ext := by
  rcases hExt with hKey | ⟨word, hWord, hRunes⟩
  · have hRender := @Text.replaceAll_key vars.pairs "{extension}" (ObjectStore.withDot
        (orDefault vars.extension ObjectStore.defaultExtension)) [] (by decide) rfl
    rw [List.append_nil, Text.replaceAll_nil, List.append_nil, hDefault] at hRender
    rw [hKey, if_pos rfl, hRender]
    decide
  · have hOpen : '\x7b' ∉ ext := by
      rw [hWord]
      intro hMem
      rcases List.mem_cons.mp hMem with hDot | hRune
      · exact absurd hDot (by decide)
      · exact absurd (hRunes _ hRune) (by decide)
    have hNe : ext ≠ "{extension}" := by
      intro hEq
      rw [hEq] at hOpen
      exact hOpen (by decide)
    have hRender := Text.replaceAll_literal (pairs_opening vars) hOpen []
    rw [List.append_nil, Text.replaceAll_nil, List.append_nil] at hRender
    rw [if_neg hNe, hRender]

theorem replaceAll_file (ext : Text) :
    Text.replaceAll vars.pairs (("{namespace}" : Text) ++ '/' :: (("{name}" : Text) ++ ext)) =
      vars.namespace_ ++ '/' :: (vars.name ++ Text.replaceAll vars.pairs ext) := by
  have hNamespace := @Text.replaceAll_key vars.pairs "{namespace}" vars.namespace_
  have hName := @Text.replaceAll_key vars.pairs "{name}" vars.name
  have hSlash : ∀ rest : Text,
      Text.replaceAll vars.pairs (['/'] ++ rest) = ['/'] ++ Text.replaceAll vars.pairs rest :=
    Text.replaceAll_literal (pairs_opening vars) (by decide)
  simp only [List.singleton_append] at hSlash
  rw [hNamespace (by decide) rfl, hSlash, hName (by decide) rfl]

end Template

/- The extension of a file template. -/
def renderedExt (ext : Text) : Text :=
  if ext = "{extension}" then ObjectStore.defaultExtension
  else ext

section FileTemplate

variable {spec : KollectSinkSpec} {front ext : Text}

theorem FileTemplate.objectPath_eq (hTemplate : FileTemplate spec front ext)
    (hFlat : ObjectStore.isParquetFormat spec = false)
    (ns name : Text) (generation : Int) : ObjectStore.objectPath spec ns name generation =
      frontOf spec front ns generation ++ ns ++ '/' :: (name ++ renderedExt ext) := by
  unfold ObjectStore.objectPath ObjectStore.renderPathTemplate
  rw [if_neg (by simp [hFlat]), hTemplate.template, replaceAll_dir_append _ hTemplate.front_dir,
    replaceAll_file, replaceAll_extension _ rfl hTemplate.ext_word, List.append_assoc]
  congr 1
  exact replaceAll_unnamed (ObjectStore.pathVars spec ns name generation)
    hTemplate.front_name name []

theorem cleanupMatchers_flat {dir word : Text} {c : Char} (hHead : dir.head? = some c)
    (hC : Text.isSpace c = false ∧ c ≠ '.') (hName : IsObjectName name)
    (hWord : ∀ c ∈ word, isDnsChar c = true) :
    cleanupMatchers (dir ++ '/' :: (name ++ '.' :: word)) =
      [⟨dir ++ '/' :: name, .flat ('.' :: word)⟩] := by
  have hRunes : ∀ c ∈ '.' :: word, isPathRune c = true := by
    rw [List.forall_mem_cons]
    exact ⟨by decide, fun c hMem => isPathRune_of_isDnsChar (hWord c hMem)⟩
  have hNotWord : ∀ c, isDnsChar c = false → c ∉ word := by
    intro c hDns hMem
    rw [hWord c hMem] at hDns
    cases hDns
  have hLast : ∃ d, d ∈ '.' :: word ∧ (dir ++ '/' :: (name ++ '.' :: word)).getLast? = some d := by
    refine ⟨('.' :: word).getLast (List.cons_ne_nil _ _), List.getLast_mem _, ?_⟩
    have hSplit : dir ++ '/' :: (name ++ '.' :: word) = (dir ++ '/' :: name) ++ '.' :: word := by
      simp
    rw [hSplit, List.getLast?_append_of_ne_nil _
      (List.cons_ne_nil _ _), List.getLast?_eq_some_getLast]
  rcases hLast with ⟨d, hMem, hLast⟩
  have hFirst : (dir ++ '/' :: (name ++ '.' :: word)).head? = some c := by
    rw [List.head?_append, hHead]
    rfl
  have hFile : '/' ∉ name ++ '.' :: word := by
    have hInName : '/' ∉ name := hName.notMem (by decide) (by decide)
    have hInWord := hNotWord '/' (by decide)
    simp [hInName, hInWord]
  have hPlain : ("generation=" : Text).isPrefixOf (name ++ '.' :: word) = false := by
    rw [Bool.eq_false_iff]
    intro hFront
    have hEq : '=' ∈ name ++ '.' :: word :=
      (List.isPrefixOf_iff_prefix.mp hFront).subset (by decide)
    have hInName : '=' ∉ name := hName.notMem (by decide) (by decide)
    have hInWord := hNotWord '=' (by decide)
    simp [hInName, hInWord] at hEq
  rcases Nat.exists_eq_succ_of_ne_zero (List.length_pos_iff.mpr hName.1).ne' with ⟨dot, hDot⟩
  have hIndex := Text.lastIndex_append name (hNotWord '.' (by decide))
  rw [hDot] at hIndex
  rw [cleanupMatchers_append
    (trimmed_path hFirst hLast hC (isSpace_of_isPathRune (hRunes d hMem))) hFile, hPlain, hIndex]
  simp only [Bool.false_and, Bool.false_eq_true, if_false]
  rw [← Nat.succ_eq_add_one, ← hDot, List.take_left,
    List.drop_left, List.append_assoc, List.singleton_append]

end FileTemplate

----
-- Part Suffixes
----

theorem isPartSuffix_partSuffix (index total : Nat) :
    isPartSuffix (partSuffix index total) = true := by
  have hLength : ∀ n, 4 ≤ (Text.digitsPadded 10 4 n).length := by
    intro n
    unfold Text.digitsPadded
    rw [List.length_append, List.length_replicate]
    omega
  have hDigits : ∀ n, (Text.digitsPadded 10 4 n).all Char.isDigit = true :=
    fun n => List.all_eq_true.mpr fun c hC => Text.isDigit_of_mem_digitsPadded hC
  apply isPartSuffix_iff.mpr
  refine ⟨_, _, hLength index, hDigits index, hLength total, hDigits total, ?_⟩
  unfold partSuffix numbered
  rw [List.append_assoc]

/- The marker of a part is none or a part suffix. -/
theorem optionalPart_marker (index total : Nat) : optionalPart (partMarker index total) = true := by
  unfold partMarker
  split_ifs
  · rfl
  · unfold optionalPart
    rw [isPartSuffix_partSuffix, Bool.or_true]

----
-- The Default Template
----

theorem frontOf_default (spec : KollectSinkSpec) (ns : Text) (generation : Int) :
    frontOf spec "inventory/" ns generation = ("inventory/" : Text) := by
  have hLiteral := Text.replaceAll_literal
      (pairs_opening (ObjectStore.pathVars spec ns [] generation))
      (show '\x7b' ∉ ("inventory/" : Text) by decide) []
  rw [List.append_nil, Text.replaceAll_nil, List.append_nil] at hLiteral
  exact hLiteral

/- The default template puts each inventory in one file. -/
theorem fileTemplate_default (hTemplate : Text.trimSpace spec.pathTemplate = []) :
    FileTemplate spec "inventory/" ".json" where
  template := by
    unfold orDefault
    rw [if_pos hTemplate]
    decide
  front_dir := Or.inr ⟨"inventory", by decide⟩
  front_name := by decide
  front_start := by
    intro ns g _ c hC
    rw [frontOf_default] at hC
    have hI : c = 'i' := (Option.some.inj hC).symm
    rw [hI]
    decide
  ext_word := Or.inr ⟨"json", by decide, Inventory.json_runes⟩

def storeWith (template : Text) : KollectSinkSpec where
  type := .other
  cluster := []
  pathTemplate := template
  serialization := none
  objectStoreFormat := none
  layout := none

def inventoryAt (ns name : Text) (hNs : isDnsLabel ns = true)
    (hName : isDnsSubdomain name = true) : Inventory where
  kind := .namespaced
  namespace_ := ns
  name := name
  validNamespace := hNs
  validName := hName

def webInventory : Inventory := inventoryAt "team-a" "web" (by decide) (by decide)

end Sink
end Kollect
