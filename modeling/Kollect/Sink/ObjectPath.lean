import Kollect.Foundation.FileTree
import Kollect.PathValidate

/-
  Object paths of snapshot exports (`sink/objectstore/path.go`).

  Key theorems include:
    * `KeyMatcher.matchesKey_flat_iff`
    * `KeyMatcher.matchesKey_hive_iff`
-/

namespace Kollect
namespace Sink

----
-- Path Templates
----

namespace ObjectStore

inductive TemplateError where
  | traversal
  | missingPlaceholder
  | unsupportedPlaceholder (word : Text)
deriving DecidableEq, Repr

def allowedPlaceholders : List Text := ["cluster", "namespace", "name", "generation", "extension"]

/- The word of a placeholder at the front, if one is there. -/
def placeholderAt : Text → Option Text
  | '\x7b' :: rest =>
    let word := rest.takeWhile (fun c => 'a' ≤ c && c ≤ 'z')
    if word ≠ [] ∧ (rest.drop word.length).head? = some '\x7d' then some word
    else none
  | _ => none

/- The matches of `\{([a-z]+)\}`; no two of them overlap. -/
def placeholders (template : Text) : List Text := template.tails.filterMap placeholderAt

def validatePathTemplate (template : Text) : Except TemplateError Unit :=
  let template := Text.trimSpace template
  if template = [] then .ok ()
  else if PathValidate.rejectTraversal template then .error .traversal
  else if ¬ (Text.contains template "{namespace}" ∧ Text.contains template "{name}") then
    .error .missingPlaceholder
  else
    match (placeholders template).find? (fun word => word ∉ allowedPlaceholders) with
    | some word => .error (.unsupportedPlaceholder word)
    | none => .ok ()

----
-- Reading An Identity From A Path
----

/- The value after the tag, or what was found before. -/
def taggedValue (tag segment found : Text) : Text :=
  if tag.isPrefixOf segment then Text.trimStart segment tag
  else found

/- The part of a file name before its last dot. -/
def stem (file : Text) : Text :=
  match Text.lastIndex '.' file with
  | some dot => file.take dot
  | none => file

/-
  Namespace and name. A path with a hive partition is read by its tags, any other by its last two
  segments.
-/
def inventoryFromObjectPath (objectPath : Text) : Text × Text :=
  let objectPath := Text.trimSpace objectPath
  if objectPath = [] then ([], [])
  else if Text.contains objectPath "/ns=" then
    (Path.segments objectPath).foldl
      (fun found segment =>
        (taggedValue "ns=" segment found.1, taggedValue "name=" segment found.2))
      ([], [])
  else
    match (Path.segments (Text.trimStart objectPath "inventory/")).reverse with
    | file :: ns :: _ => (ns, stem file)
    | _ => ([], [])

/- The value of the last segment with the tag. -/
def lastTagged (tag : Text) (segments : List Text) : Text :=
  ((segments.filter tag.isPrefixOf).getLast?.map (fun segment => segment.drop tag.length)).getD []

theorem lastTagged_append (tag : Text) (segments : List Text) (segment : Text) :
    lastTagged tag (segments ++ [segment]) = taggedValue tag segment (lastTagged tag segments) := by
  unfold lastTagged taggedValue
  rw [List.filter_append]
  by_cases hTag : tag.isPrefixOf segment
  · simp [hTag, Text.trimStart]
  · simp [hTag]

theorem foldl_taggedValue (segments : List Text) : segments.foldl
        (fun found segment =>
          (taggedValue "ns=" segment found.1, taggedValue "name=" segment found.2)) ([], []) =
      (lastTagged "ns=" segments, lastTagged "name=" segments) := by
  induction segments using List.reverseRecOn with
  | nil => rfl
  | append_singleton segments segment ih =>
    rw [List.foldl_append, ih, lastTagged_append, lastTagged_append]
    rfl

theorem stem_eq_iff {file name : Text} : stem file = name ↔
      (∃ ext, file = name ++ '.' :: ext ∧ '.' ∉ ext) ∨ file = name ∧ '.' ∉ name := by
  unfold stem
  by_cases hDot : '.' ∈ file
  · -- Cut the file name at its last dot.
    rcases Text.exists_last_occurrence hDot with ⟨front, word, hFile, hExt⟩
    rw [hFile, Text.lastIndex_append front hExt]
    simp only [List.take_left']
    constructor
    · rintro rfl
      exact .inl ⟨word, rfl, hExt⟩
    · rintro (⟨ext, hEq, hNot⟩ | ⟨hEq, hNot⟩)
      · have hIndex := Text.lastIndex_append name hNot
        rw [← hEq, Text.lastIndex_append front hExt] at hIndex
        have hLength := Option.some.inj hIndex
        exact (List.append_inj hEq hLength).1
      · rw [← hEq] at hNot
        simp at hNot
  · rw [Text.lastIndex_eq_none hDot]
    constructor
    · rintro rfl
      exact .inr ⟨rfl, hDot⟩
    · rintro (⟨ext, rfl, -⟩ | ⟨rfl, -⟩)
      · simp at hDot
      · rfl

/-
  What a path must look like to be read as an identity: the last tags of a hive partition, or the
  last two segments with at most one extension.
-/
inductive EndsInIdentity (p : Text) : Text → Text → Prop
  | tagged
      (hHive : Text.contains (Text.trimSpace p) "/ns=" = true) :
      EndsInIdentity p (lastTagged "ns=" (Path.segments (Text.trimSpace p)))
        (lastTagged "name=" (Path.segments (Text.trimSpace p)))
  | flat (hFlat : Text.contains (Text.trimSpace p) "/ns=" = false) {front : List Text}
      {ns file name : Text}
      (hSegments :
        Path.segments (Text.trimStart (Text.trimSpace p) "inventory/") = front ++ [ns, file])
      (hFile : (∃ ext, file = name ++ '.' :: ext ∧ '.' ∉ ext) ∨ file = name ∧ '.' ∉ name) :
      EndsInIdentity p ns name

theorem inventoryFromObjectPath_eq_iff {p ns name : Text} (hName : name ≠ []) :
    inventoryFromObjectPath p = (ns, name) ↔ EndsInIdentity p ns name := by
  unfold inventoryFromObjectPath
  dsimp only
  split_ifs with hEmpty hHive
  · constructor
    · intro hEq
      exact absurd (Prod.mk.inj hEq).2.symm hName
    · intro hEnds
      cases hEnds with
      | tagged hHive => simp [hEmpty, Text.contains] at hHive
      | flat hFlat hSegments hFile =>
        have hOne := congrArg List.length hSegments
        simp [hEmpty, Text.trimStart, Path.segments] at hOne
  · rw [foldl_taggedValue]
    constructor
    · intro hEq
      obtain ⟨rfl, rfl⟩ := Prod.mk.inj hEq
      exact .tagged hHive
    · intro hEnds
      cases hEnds with
      | tagged _ => rfl
      | flat hFlat =>
        rw [hHive] at hFlat
        cases hFlat
  · have hFlat := Bool.eq_false_iff.mpr hHive
    constructor
    · intro hEq
      split at hEq
      · rename_i file ns' front hReverse
        obtain ⟨rfl, hStem⟩ := Prod.mk.inj hEq
        have hSegments : Path.segments (Text.trimStart (Text.trimSpace p) "inventory/") =
              front.reverse ++ [ns', file] := by
          rw [← List.reverse_inj, hReverse]
          simp
        exact .flat hFlat hSegments (stem_eq_iff.mp hStem)
      · exact absurd (Prod.mk.inj hEq).2.symm hName
    · intro hEnds
      cases hEnds with
      | tagged hHive' => exact absurd hHive' hHive
      | flat _ hSegments hFile =>
        rw [hSegments]
        simp [stem_eq_iff.mpr hFile]

theorem slash_notMem_lastTagged
    (tag : Text) {segments : List Text} (hNone : ∀ s ∈ segments, '/' ∉ s) :
    '/' ∉ lastTagged tag segments := by
  unfold lastTagged
  cases hLast : (segments.filter tag.isPrefixOf).getLast? with
  | none => simp
  | some segment =>
    have hMem := List.mem_of_getLast? hLast
    rw [List.mem_filter] at hMem
    exact fun hSlash => hNone segment hMem.1 (List.mem_of_mem_drop hSlash)

theorem slash_notMem_inventoryFromObjectPath (p : Text) :
    '/' ∉ (inventoryFromObjectPath p).1 ∧ '/' ∉ (inventoryFromObjectPath p).2 := by
  unfold inventoryFromObjectPath
  dsimp only
  split_ifs
  · simp
  · rw [foldl_taggedValue]
    have hNone : ∀ s ∈ Path.segments (Text.trimSpace p), '/' ∉ s :=
      fun s hS => Path.slash_notMem_of_mem_segments hS
    exact ⟨slash_notMem_lastTagged _ hNone, slash_notMem_lastTagged _ hNone⟩
  · split
    · rename_i file ns front hReverse
      have hNone : ∀ s ∈ file :: ns :: front, '/' ∉ s := by
        intro s hS
        rw [← hReverse, List.mem_reverse] at hS
        exact Path.slash_notMem_of_mem_segments hS
      refine ⟨hNone ns (by simp), fun hMem => ?_⟩
      have hFile := hNone file (by simp)
      unfold stem at hMem
      split at hMem
      · exact hFile (List.mem_of_mem_take hMem)
      · exact hFile hMem
    · simp

end ObjectStore

----
-- Cleanup Matchers
----

/-
  The multipart suffix, `\.part-\d{4,}-of-\d{4,}` as a whole: four digits are a minimum width, not a
  cap.
-/
def isPartSuffix (s : Text) : Bool :=
  let marker : Text := ".part-"
  let middle : Text := "-of-"
  let afterMarker := s.drop marker.length
  let index := afterMarker.takeWhile Char.isDigit
  let afterIndex := afterMarker.drop index.length
  let total := afterIndex.drop middle.length
  marker.isPrefixOf s && decide (4 ≤ index.length) &&
    middle.isPrefixOf afterIndex &&
    decide (4 ≤ total.length) && total.all Char.isDigit

variable {s : Text}

theorem isPartSuffix_iff :
    isPartSuffix s = true ↔ ∃ index total : Text, 4 ≤ index.length ∧ index.all Char.isDigit = true ∧
        4 ≤ total.length ∧ total.all Char.isDigit = true ∧
        s = (".part-" : Text) ++ (index ++ (("-of-" : Text) ++ total)) := by
  unfold isPartSuffix
  simp only [Bool.and_eq_true, decide_eq_true_eq]
  constructor
  · intro hSuffix
    rcases hSuffix with ⟨⟨⟨⟨hMarker, hIndex⟩, hMiddle⟩, hTotal⟩, hDigits⟩
    rcases List.isPrefixOf_iff_prefix.mp hMarker with ⟨r, rfl⟩
    rw [List.drop_left] at hIndex hMiddle hTotal hDigits
    rcases List.isPrefixOf_iff_prefix.mp hMiddle with ⟨total, hRest⟩
    rw [← hRest, List.drop_left] at hTotal hDigits
    refine ⟨r.takeWhile Char.isDigit, total, hIndex, List.all_takeWhile, hTotal, hDigits, ?_⟩
    rw [hRest, Text.drop_length_takeWhile, List.takeWhile_append_dropWhile]
  · intro hParts
    rcases hParts with ⟨index, total, hIndex, hIndexDigits, hTotal, hDigits, rfl⟩
    have hTake : (index ++ (("-of-" : Text) ++ total)).takeWhile Char.isDigit = index := by
      rw [List.takeWhile_append_of_pos (fun c hC => List.all_eq_true.mp hIndexDigits c hC)]
      simp
    rw [List.drop_left, hTake, List.drop_left, List.drop_left]
    refine ⟨⟨⟨⟨?_, hIndex⟩, ?_⟩, hTotal⟩, hDigits⟩ <;>
      exact List.isPrefixOf_iff_prefix.mpr (List.prefix_append _ _)

/- The two shapes of what may follow a matcher's prefix. -/
inductive KeyRest where
  | flat (ext : Text)
  | hive
deriving DecidableEq, Repr

/- An optional part suffix. -/
def optionalPart (s : Text) : Bool := s = [] || isPartSuffix s

theorem optionalPart_cases (hPart : optionalPart s = true) :
    s = [] ∨ isPartSuffix s = true ∧ '/' ∉ s ∧ ∃ tail, s = '.' :: tail ∧ '.' ∉ tail := by
  unfold optionalPart at hPart
  rw [Bool.or_eq_true, decide_eq_true_eq] at hPart
  rcases hPart with hEmpty | hSuffix
  · exact Or.inl hEmpty
  · right
    rcases isPartSuffix_iff.mp hSuffix with ⟨index, total, _, hIndex, _, hTotal, hS⟩
    have hNot : ∀ c : Char, c.isDigit = false → c ∉ index ∧ c ∉ total := by
      intro c hC
      constructor <;> intro hMem
      · exact absurd (List.all_eq_true.mp hIndex c hMem) (by simp [hC])
      · exact absurd (List.all_eq_true.mp hTotal c hMem) (by simp [hC])
    have hSlash := hNot '/' (by decide)
    have hDot := hNot '.' (by decide)
    refine ⟨hSuffix, ?_, ("part-" : Text) ++ (index ++ (("-of-" : Text) ++ total)), hS, ?_⟩
    · rw [hS]
      simp [hSlash.1, hSlash.2]
    · simp [hDot.1, hDot.2]

/- `generation=\d+\.parquet` as a whole. -/
def isGenerationFile (s : Text) : Bool :=
  let marker : Text := "generation="
  let digits := (s.drop marker.length).takeWhile Char.isDigit
  marker.isPrefixOf s && digits ≠ [] &&
    decide (s.drop (marker.length + digits.length) = (".parquet" : Text))

theorem isGenerationFile_iff :
    isGenerationFile s = true ↔ ∃ digits : Text, digits ≠ [] ∧ digits.all Char.isDigit = true ∧
        s = ("generation=" : Text) ++ (digits ++ (".parquet" : Text)) := by
  unfold isGenerationFile
  simp only [Bool.and_eq_true, decide_eq_true_eq]
  constructor
  · intro hFile
    rcases hFile with ⟨⟨hMarker, hDigits⟩, hEnd⟩
    rcases List.isPrefixOf_iff_prefix.mp hMarker with ⟨r, rfl⟩
    rw [List.drop_left] at hDigits hEnd
    rw [← List.drop_drop, List.drop_left, Text.drop_length_takeWhile] at hEnd
    refine ⟨r.takeWhile Char.isDigit, hDigits, List.all_takeWhile, ?_⟩
    rw [← hEnd, List.takeWhile_append_dropWhile]
  · intro hFile
    rcases hFile with ⟨digits, hNe, hDigits, rfl⟩
    have hTake : (digits ++ (".parquet" : Text)).takeWhile Char.isDigit = digits := by
      rw [List.takeWhile_append_of_pos (fun c hC => List.all_eq_true.mp hDigits c hC)]
      simp
    rw [List.drop_left, hTake, ← List.drop_drop, List.drop_left, List.drop_left]
    exact ⟨⟨List.isPrefixOf_iff_prefix.mpr (List.prefix_append _ _), hNe⟩, rfl⟩

/- The pattern is anchored at both ends. -/
def KeyRest.matchesRest : KeyRest → Text → Bool
  | flat ext, s => ext.isSuffixOf s && optionalPart (s.take (s.length - ext.length))
  | hive, s =>
    let part := s.takeWhile (fun c => c ≠ '/')
    optionalPart part && s.drop part.length ≠ [] && isGenerationFile (s.drop (part.length + 1))

structure KeyMatcher where
  keyPrefix : Text
  rest : KeyRest
deriving DecidableEq, Repr

namespace KeyMatcher

def matchesKey (m : KeyMatcher) (key : Text) : Bool :=
  m.keyPrefix.isPrefixOf key && m.rest.matchesRest (key.drop m.keyPrefix.length)

/- The deepest directory a listing must visit. -/
def listDir (m : KeyMatcher) : Text :=
  if m.keyPrefix = [] then ['.']
  else if ['/'].isSuffixOf m.keyPrefix then Text.trimEnd m.keyPrefix ['/']
  else
    match Text.lastIndex '/' m.keyPrefix with
    | some i => m.keyPrefix.take i
    | none => ['.']

/- The file is in the listed directory and matches. -/
def lists (m : KeyMatcher) (p : Text) : Bool :=
  decide (FileTree.parentDir p = m.listDir) && m.matchesKey p

/- A flat matcher takes its path and the part siblings. -/
theorem matchesKey_flat_iff {front ext key : Text} : matchesKey ⟨front, .flat ext⟩ key = true ↔
      ∃ part, optionalPart part = true ∧ key = front ++ (part ++ ext) := by
  unfold matchesKey KeyRest.matchesRest
  simp only [Bool.and_eq_true]
  constructor
  · intro hMatch
    rcases List.isPrefixOf_iff_prefix.mp hMatch.1 with ⟨s, rfl⟩
    rw [List.drop_left] at hMatch
    rcases List.isSuffixOf_iff_suffix.mp hMatch.2.1 with ⟨part, rfl⟩
    refine ⟨part, ?_, rfl⟩
    have hPart := hMatch.2.2
    rw [List.length_append, Nat.add_sub_cancel, List.take_left] at hPart
    exact hPart
  · intro hKey
    rcases hKey with ⟨part, hPart, rfl⟩
    rw [List.drop_left, List.length_append, Nat.add_sub_cancel, List.take_left]
    exact ⟨List.isPrefixOf_iff_prefix.mpr (List.prefix_append _ _),
      List.isSuffixOf_iff_suffix.mpr (List.suffix_append _ _), hPart⟩

/- A hive matcher takes the generations of the partition. -/
theorem matchesKey_hive_iff {front key : Text} :
    matchesKey ⟨front, .hive⟩ key = true ↔ ∃ part file, optionalPart part = true ∧
        isGenerationFile file = true ∧ key = front ++ (part ++ '/' :: file) := by
  unfold matchesKey KeyRest.matchesRest
  simp only [Bool.and_eq_true, decide_eq_true_eq]
  constructor
  · intro hMatch
    rcases List.isPrefixOf_iff_prefix.mp hMatch.1 with ⟨s, rfl⟩
    rw [List.drop_left] at hMatch
    rcases hMatch with ⟨_, ⟨hPart, hMore⟩, hFile⟩
    rw [Text.drop_length_takeWhile] at hMore
    rw [← List.drop_drop, Text.drop_length_takeWhile] at hFile
    refine ⟨s.takeWhile (fun c => decide (c ≠ '/')), _, hPart, hFile, ?_⟩
    -- the rune that ends the part is the separator
    cases hRest : s.dropWhile (fun c => decide (c ≠ '/')) with
    | nil => exact absurd hRest hMore
    | cons c rest =>
      have hSep := List.head?_dropWhile_not (fun c => decide (c ≠ '/')) s
      rw [hRest] at hSep
      have hC : c = '/' := by simpa using hSep
      rw [hC] at hRest
      rw [List.drop_one, List.tail_cons, ← hRest, List.takeWhile_append_dropWhile]
  · intro hKey
    rcases hKey with ⟨part, file, hPart, hFile, rfl⟩
    have hSlash : '/' ∉ part := by
      rcases optionalPart_cases hPart with rfl | hSuffix
      · exact List.not_mem_nil
      · exact hSuffix.2.1
    have hTake : (part ++ '/' :: file).takeWhile (fun c => decide (c ≠ '/')) = part := by
      rw [List.takeWhile_append_of_pos]
      · simp
      · intro c hC
        have hNe : c ≠ '/' := fun hEq => hSlash (hEq ▸ hC)
        simpa using hNe
    rw [List.drop_left, hTake, List.drop_left, ← List.drop_drop, List.drop_left]
    exact ⟨List.isPrefixOf_iff_prefix.mpr (List.prefix_append _ _), ⟨hPart, List.cons_ne_nil _ _⟩,
      hFile⟩

end KeyMatcher

/-
  The matchers for everything one export at the path could have written: the path itself and its
  part siblings, or, in the hive layout, every generation of the partition.
-/
def cleanupMatchers (objectPath : Text) : List KeyMatcher :=
  let objectPath := Text.trimStart (Text.trimSpace objectPath) ['.', '/']
  if objectPath = [] then []
  else
    let (dir, file) := Path.splitFile objectPath
    if ("generation=" : Text).isPrefixOf file && Text.contains dir "/name=" then
      [{ keyPrefix := Text.trimEnd dir ['/'], rest := .hive }]
    else
      match Text.lastIndex '.' file with
      | some (dot + 1) =>
        [{ keyPrefix := dir ++ file.take (dot + 1)
           rest := .flat (file.drop (dot + 1)) }]
      | _ => [{ keyPrefix := dir ++ file, rest := .flat [] }]

end Sink
end Kollect
