import Kollect.Sink.SnapshotPath

/-
  What the matchers of a path accept (`sink/objectstore/path.go`).

  A path has one matcher, which is cut at the last dot of its file, or at the last slash of a hive
  path. The matcher of the path of a name takes the paths of the name with a part suffix exactly if
  the name ends where the matcher is cut; the parts of one dotted name tell.

  Key theorems include:
    * `stemEnding_of_matches`
    * `manifest_matches_no_part`
-/

namespace Kollect
namespace Sink

open Export

----
-- The Matcher Of A Path
----

/- The path that a cleanup reads as a hive partition. -/
def isHivePath (p : Text) : Bool :=
  ("generation=" : Text).isPrefixOf (Path.splitFile p).2 &&
    Text.contains (Path.splitFile p).1 "/name="

/-
  The one matcher of a path: for a hive partition, for a file with an extension, or for a file
  without one.
-/
inductive MatcherFor (p : Text) : KeyMatcher → Prop
  | hive {dir file : Text} (hPath : p = dir ++ '/' :: file) (hFile : '/' ∉ file)
      (hHive : isHivePath p = true) : MatcherFor p ⟨dir, .hive⟩
  | extension {front word : Text} (hPath : p = front ++ '.' :: word) (hDot : '.' ∉ word)
      (hSlash : '/' ∉ word)
      (hHive : isHivePath p = false) : MatcherFor p ⟨front, .flat ('.' :: word)⟩
  | plain (hInner : ∀ front c word, p = front ++ c :: '.' :: word → c = '/' ∨ '/' ∈ word)
      (hHive : isHivePath p = false) : MatcherFor p ⟨p, .flat []⟩

section Matcher

variable {p : Text}

/- A dot inside the last segment is inside the file. -/
theorem splitFile_inner_dot {front word : Text} {c : Char} (hC : c ≠ '/') (hWord : '/' ∉ word)
    (hPath : p = front ++ c :: '.' :: word) :
    (Path.splitFile p).2 = (Path.splitFile front).2 ++ c :: '.' :: word := by
  have hRest : '/' ∉ c :: '.' :: word := by simp [Ne.symm hC, hWord]
  rw [hPath, Path.splitFile_append_file _ hRest]

theorem matcher_of_file {dir file : Text} (hSplit : Path.splitFile p = (dir, file))
    (hHive : isHivePath p = false) :
    ∃ m, (match Text.lastIndex '.' file with
        | some (dot + 1) => [⟨dir ++ file.take (dot + 1), KeyRest.flat (file.drop (dot + 1))⟩]
        | _ => [⟨dir ++ file, KeyRest.flat []⟩]) = [m] ∧ MatcherFor p m := by
  rcases Path.splitFile_spec p with ⟨hPath, hFile, -⟩
  rw [hSplit] at hPath hFile
  have hPlain : (∀ a b, file = a ++ '.' :: b → a = []) → MatcherFor p ⟨dir ++ file, .flat []⟩ := by
    intro hFirst
    rw [← hPath]
    refine .plain ?_ hHive
    intro front c word hInner
    by_contra hNot
    rw [not_or] at hNot
    have hCut := splitFile_inner_dot hNot.1 hNot.2 hInner
    rw [hSplit] at hCut
    have hNone := hFirst ((Path.splitFile front).2 ++ [c]) word (hCut.trans (by simp))
    simp at hNone
  by_cases hDot : '.' ∈ file
  · rcases Text.exists_last_occurrence hDot with ⟨a, b, hCut, hB⟩
    rw [hCut, Text.lastIndex_append a hB]
    cases a with
    | nil =>
      refine ⟨_, rfl, ?_⟩
      rw [← hCut]
      apply hPlain
      intro a' b' hAgain
      cases a' with
      | nil => rfl
      | cons c a' =>
        rw [hCut, List.nil_append, List.cons_append, List.cons.injEq] at hAgain
        rw [hAgain.2] at hB
        simp at hB
    | cons c a =>
      refine ⟨⟨dir ++ c :: a, .flat ('.' :: b)⟩, ?_, ?_⟩
      · have hTake := @List.take_left _ (c :: a) ('.' :: b)
        have hDrop := @List.drop_left _ (c :: a) ('.' :: b)
        rw [List.length_cons] at hTake hDrop ⊢
        dsimp only
        rw [hTake, hDrop]
      · refine .extension ?_ hB ?_ hHive
        · rw [hPath, hCut]
          simp
        · intro hSlash
          apply hFile
          rw [hCut]
          simp [hSlash]
  · rw [Text.lastIndex_eq_none hDot]
    refine ⟨_, rfl, hPlain ?_⟩
    intro a b hCut
    rw [hCut] at hDot
    simp at hDot

theorem cleanupMatchers_single {whole : Text}
    (hRead : Text.trimStart (Text.trimSpace whole) ['.', '/'] = p) (hNe : p ≠ []) :
    ∃ m, cleanupMatchers whole = [m] ∧ MatcherFor p m := by
  unfold cleanupMatchers
  simp only [hRead, if_neg hNe]
  cases hHive : isHivePath p with
  | false =>
    have hFlat := hHive
    unfold isHivePath at hFlat
    rw [hFlat]
    exact matcher_of_file rfl hHive
  | true =>
    have hBoth := hHive
    unfold isHivePath at hBoth
    rw [if_pos hBoth]
    refine ⟨_, rfl, ?_⟩
    rcases Path.splitFile_spec p with ⟨hPath, hFile, hNone | ⟨dir, hDir⟩⟩
    · -- without a directory there is no `/name=`
      rw [hNone, Bool.and_eq_true] at hBoth
      exact absurd hBoth.2 (by decide)
    · have hEnd : Text.trimEnd (dir ++ ['/']) ['/'] = dir :=
        PathValidate.trimEnd_eq_iff.mpr (Or.inl rfl)
      rw [hDir, hEnd]
      refine .hive ?_ hFile hHive
      rw [hDir, List.append_assoc] at hPath
      exact hPath

end Matcher

----
-- What May Follow A Name
----

/-
  What may follow the name: an extension of the file, or the file of a generation below a directory
  with a name tag.
-/
inductive StemEnding (front : Text) : Text → Prop
  | extension {word : Text} (hDot : '.' ∉ word) (hSlash : '/' ∉ word)
      (hHive : isHivePath front = false) : StemEnding front ('.' :: word)
  | generation {file : Text} (hTagged : Text.contains front "/name=" = true)
      (hFile : isGenerationFile file = true) : StemEnding front ('/' :: file)

theorem generationFile_shape {file : Text} (hFile : isGenerationFile file = true) :
    ("generation=" : Text).isPrefixOf file = true ∧ '/' ∉ file ∧ file.count '.' = 1 := by
  rcases isGenerationFile_iff.mp hFile with ⟨digits, -, hDigits, rfl⟩
  have hNot : ∀ c : Char, c.isDigit = false → c ∉ digits := by
    intro c hC hMem
    rw [List.all_eq_true.mp hDigits c hMem] at hC
    cases hC
  have hFront : '/' ∉ ("generation=" : Text) := by decide
  have hEnd : '/' ∉ (".parquet" : Text) := by decide
  have hFrontDots : ("generation=" : Text).count '.' = 0 := by decide
  have hEndDots : (".parquet" : Text).count '.' = 1 := by decide
  refine ⟨List.isPrefixOf_iff_prefix.mpr (List.prefix_append _ _), ?_, ?_⟩
  · simp only [List.mem_append, not_or]
    exact ⟨hFront, hNot '/' (by decide), hEnd⟩
  · rw [List.count_append, List.count_append, hFrontDots,
      hEndDots, List.count_eq_zero.mpr (hNot '.' (by decide))]

theorem isGenerationFile_hiveFile (generation : Nat) :
    isGenerationFile (hiveFile generation) = true := by
  have hDigits : Text.ofInt generation = Nat.toDigits 10 generation := by
    unfold Text.ofInt
    rw [if_neg (by omega)]
    rfl
  apply isGenerationFile_iff.mpr
  refine ⟨Nat.toDigits 10 generation, Nat.toDigits_ne_nil, ?_, ?_⟩
  · exact List.all_eq_true.mpr fun c hC => Nat.isDigit_of_mem_toDigits (by decide) (by decide) hC
  · unfold hiveFile
    rw [hDigits]

theorem isHivePath_append
    {front name word : Text} (hName : IsObjectName name) (hSlash : '/' ∉ word) :
    isHivePath (front ++ (name ++ '.' :: word)) = isHivePath front := by
  have hRest : '/' ∉ name ++ '.' :: word := by
    have hInName : '/' ∉ name := hName.notMem (by decide) (by decide)
    simp [hInName, hSlash]
  have hDot : '.' ∉ ("generation=" : Text) := by decide
  have hEquals : '=' ∉ name := hName.notMem (by decide) (by decide)
  unfold isHivePath
  rw [Path.splitFile_append_file _ hRest]
  rw [← List.append_assoc, Text.isPrefixOf_append_sep hDot]
  congr 1
  rw [Bool.eq_iff_iff, List.isPrefixOf_iff_prefix, List.isPrefixOf_iff_prefix]
  constructor
  · exact Text.prefix_of_prefix_append (by decide) hEquals
  · intro hPrefix
    exact hPrefix.trans (List.prefix_append _ _)

----
-- The Plain Name And Its Parts
----

section Ending

variable {front ending name : Text}

theorem matcherFor_ending {m : KeyMatcher} (hEnding : StemEnding front ending)
    (hName : IsObjectName name) (hFor : MatcherFor (front ++ (name ++ ending)) m)
    {part : Text} (hPart : optionalPart part = true) :
    m.matchesKey (front ++ (name ++ part ++ ending)) = true := by
  cases hEnding with
  | @extension word hDot hSlash hHive =>
    have hFlat := hHive
    rw [← isHivePath_append hName hSlash] at hFlat
    cases hFor with
    | hive _ _ hIs =>
      rw [hIs] at hFlat
      cases hFlat
    | @extension stem word' hPath hDot' _ _ =>
      rw [← List.append_assoc, Text.append_lastSep_inj hDot hDot'] at hPath
      rw [← hPath.1, ← hPath.2, KeyMatcher.matchesKey_flat_iff]
      exact ⟨part, hPart, by simp⟩
    | plain hInner _ =>
      -- the rune before the dot is the name's last
      rcases List.eq_nil_or_concat name with hNil | ⟨first, c, hC⟩
      · exact absurd hNil hName.1
      · rw [List.concat_eq_append] at hC
        have hSep := hInner (front ++ first) c word (by simp [hC])
        rcases hSep with hSep | hSep
        · have hMem : '/' ∈ name := by
            rw [hC, hSep]
            simp
          exact absurd hMem (hName.notMem (by decide) (by decide))
        · exact absurd hSep hSlash
  | @generation file hTagged hFile =>
    rcases generationFile_shape hFile with ⟨hBegins, hSlash, -⟩
    have hPathEq : front ++ (name ++ '/' :: file) = (front ++ name) ++ '/' :: file := by simp
    have hHive : isHivePath (front ++ (name ++ '/' :: file)) = true := by
      unfold isHivePath
      rw [hPathEq, Path.splitFile_append _ hSlash, hBegins, Text.contains_iff_isInfix.mpr]
      · rfl
      · rw [List.append_assoc]
        exact (Text.contains_iff_isInfix.mp hTagged).trans (List.prefix_append _ _).isInfix
    cases hFor with
    | extension _ _ _ hIs | plain _ hIs =>
      rw [hIs] at hHive
      cases hHive
    | @hive dir file' hPath hSlash' _ =>
      rw [hPathEq, Text.append_lastSep_inj hSlash hSlash'] at hPath
      rw [← hPath.1, KeyMatcher.matchesKey_hive_iff]
      exact ⟨part, file, hPart, hFile, by simp⟩

end Ending

theorem partSuffix_eq (index total : Nat) :
    ∃ tail, partSuffix index total = '.' :: tail ∧ '.' ∉ tail := by
  have hPart : optionalPart (partSuffix index total) = true := by
    unfold optionalPart
    rw [isPartSuffix_partSuffix, Bool.or_true]
  rcases optionalPart_cases hPart with hEmpty | hSuffix
  · have hLength := congrArg List.length hEmpty
    simp [partSuffix, numbered] at hLength
  · exact hSuffix.2.2

variable {part : Text}

theorem count_dots_part_le (hPart : optionalPart part = true) : part.count '.' ≤ 1 := by
  rcases optionalPart_cases hPart with hEmpty | ⟨-, -, tail, hTail, hDot⟩
  · rw [hEmpty]
    exact Nat.zero_le 1
  · rw [hTail, List.count_cons_self, List.count_eq_zero.mpr hDot]

theorem count_dots_le {p key : Text} {m : KeyMatcher} (hFor : MatcherFor p m)
    (hSelf : m.matchesKey p = true) (hKey : m.matchesKey key = true) :
    key.count '.' ≤ p.count '.' + 1 := by
  cases hFor with
  | @hive dir file hPath hFile _ =>
    rw [KeyMatcher.matchesKey_hive_iff] at hSelf hKey
    rcases hSelf with ⟨part, own, -, hOwn, hOwnPath⟩
    rcases hKey with ⟨part', file', hPart', hFile', rfl⟩
    have hOwnShape := generationFile_shape hOwn
    have hShape := generationFile_shape hFile'
    rw [hPath, ← List.append_assoc, Text.append_lastSep_inj hFile hOwnShape.2.1] at hOwnPath
    have hLe := count_dots_part_le hPart'
    rw [hPath, hOwnPath.2]
    simp only [List.count_append, List.count_cons, hShape.2.2, hOwnShape.2.2]
    omega
  | @extension stem word hPath _ _ _ =>
    rw [KeyMatcher.matchesKey_flat_iff] at hKey
    rcases hKey with ⟨part, hPart, rfl⟩
    have hLe := count_dots_part_le hPart
    rw [hPath]
    simp only [List.count_append]
    omega
  | plain _ _ =>
    rw [KeyMatcher.matchesKey_flat_iff] at hKey
    rcases hKey with ⟨part, hPart, rfl⟩
    have hLe := count_dots_part_le hPart
    simp only [List.count_append, List.append_nil]
    omega

/- Two suffixes cannot both move over the same text. -/
theorem eq_nil_of_shift {x part' : Text} (hPart : optionalPart part = true)
    (hFirst : partSuffix 1 2 ++ x = x ++ part) (hSecond : partSuffix 2 2 ++ x = x ++ part') :
    x = [] := by
  by_contra hNe
  rcases List.append_eq_append_iff.mp hFirst with ⟨more, hX, -⟩ | ⟨extra, hOver, hTail⟩
  · -- both suffixes begin the text
    have hBegins : partSuffix 1 2 <+: partSuffix 2 2 ++ x := by
      rw [hSecond, hX, List.append_assoc]
      exact List.prefix_append _ _
    have hSame : partSuffix 1 2 <+: partSuffix 2 2 :=
      List.prefix_of_prefix_length_le hBegins (List.prefix_append _ _) (by decide)
    exact absurd (hSame.eq_of_length (by decide)) (by decide)
  · -- the text begins the suffix and has its only dot
    rcases partSuffix_eq 1 2 with ⟨tail, hSuffix, hDot⟩
    cases x with
    | nil => exact hNe rfl
    | cons c x =>
      rw [hSuffix, List.cons_append, List.cons.injEq] at hOver
      rw [hOver.2] at hDot
      rcases optionalPart_cases hPart with hEmpty | ⟨-, -, rest, hRest, -⟩
      · rw [hEmpty] at hTail
        have hLength := congrArg List.length hTail
        simp at hLength
      · cases extra with
        | nil =>
          -- the text is the whole suffix
          rw [List.append_nil] at hOver
          have hWhole : partSuffix 1 2 = c :: x := by rw [hSuffix, hOver.1, hOver.2]
          rw [← hWhole] at hSecond
          have hSame : partSuffix 2 2 = partSuffix 1 2 := (List.append_inj hSecond (by decide)).1
          exact absurd hSame (by decide)
        | cons d extra =>
          rw [hRest, List.cons_append, List.cons.injEq] at hTail
          rw [← hTail.1] at hDot
          simp at hDot

/- The name that the shape of a template is read from. -/
def dottedName : Text := "a.b"

theorem isObjectName_dottedName : IsObjectName dottedName := isObjectName_iff_all.mpr (by decide)

section Shape

variable {front ending : Text}

/- A matcher with an extension is cut at the name's end. -/
theorem ending_of_extension {stem word : Text}
    (hPath : front ++ (dottedName ++ ending) = stem ++ '.' :: word) (hDot : '.' ∉ word)
    (hParts : ∀ index, index = 1 ∨ index = 2 → ∃ part, optionalPart part = true ∧
        front ++ (dottedName ++ partSuffix index 2 ++ ending) = stem ++ (part ++ '.' :: word)) :
    ending = '.' :: word := by
  rcases hParts 1 (Or.inl rfl) with ⟨part, hPart, hKey⟩
  rcases hParts 2 (Or.inr rfl) with ⟨part', -, hKey'⟩
  rw [← List.append_assoc] at hPath
  rcases List.append_eq_append_iff.mp hPath with ⟨x, hStem, hEnding⟩ | ⟨x, hFront, hWord⟩
  · -- the stem goes over the name
    rw [hStem, hEnding] at hKey hKey'
    have hShift : ∀ {index : Nat} {part : Text},
        front ++ (dottedName ++ partSuffix index 2 ++ (x ++ '.' :: word)) =
          front ++ dottedName ++ x ++ (part ++ '.' :: word) →
        partSuffix index 2 ++ x = x ++ part := by
      intro index part hEq
      simp only [← List.append_assoc] at hEq
      have hEq := List.append_cancel_right hEq
      simp only [List.append_assoc] at hEq
      exact List.append_cancel_left (List.append_cancel_left hEq)
    have hNil := eq_nil_of_shift hPart (hShift hKey) (hShift hKey')
    rw [hEnding, hNil, List.nil_append]
  · cases x with
    | nil => exact hWord.symm
    | cons c x =>
      -- the name would end in the suffix
      rw [List.cons_append, List.cons.injEq] at hWord
      rcases partSuffix_eq 1 2 with ⟨tail, hSuffix, hTail⟩
      have hX : '.' ∉ x := by
        intro hMem
        rw [hWord.2] at hDot
        exact hDot (List.mem_append_left _ hMem)
      have hShift : c :: x ++ partSuffix 1 2 = part ++ c :: x := by
        rw [hWord.2, ← List.append_assoc, ← List.append_assoc, hFront] at hKey
        rw [← hWord.1]
        have hEq : stem ++ ('.' :: x ++ partSuffix 1 2) ++
            ending = stem ++ (part ++ '.' :: x) ++ ending := by
          rw [← hWord.1] at hKey
          simpa using hKey
        exact List.append_cancel_left (List.append_cancel_right hEq)
      rw [← hWord.1] at hShift hFront
      have hLast := congrArg List.getLast? hFront
      rcases optionalPart_cases hPart with hEmpty | ⟨-, -, rest, hRest, -⟩
      · rw [hEmpty] at hShift
        have hLength := congrArg List.length hShift
        rw [hSuffix] at hLength
        simp at hLength
      · rw [hRest, hSuffix, List.cons_append, List.cons_append, List.cons.injEq,
          Text.append_lastSep_inj hTail hX] at hShift
        rw [← hShift.2.2, ← hSuffix, List.getLast?_append_of_ne_nil _ (by decide),
          List.getLast?_append_of_ne_nil _ (by decide)] at hLast
        exact absurd hLast (by decide)

theorem ending_of_hive {dir file : Text}
    (hPath : front ++ (dottedName ++ ending) = dir ++ '/' :: file) (hFile : '/' ∉ file)
    (hParts : ∀ index, index = 1 ∨ index = 2 → ∃ part file', optionalPart part = true ∧
        isGenerationFile file' = true ∧
        front ++ (dottedName ++ partSuffix index 2 ++ ending) = dir ++ (part ++ '/' :: file')) :
    ending = '/' :: file ∧ isGenerationFile file = true ∧ dir = front ++ dottedName := by
  rcases hParts 1 (Or.inl rfl) with ⟨part, file₁, hPart, hFile₁, hKey⟩
  rcases hParts 2 (Or.inr rfl) with ⟨part', file₂, -, hFile₂, hKey'⟩
  rw [← List.append_assoc dir] at hKey hKey'
  have hShape₁ := generationFile_shape hFile₁
  have hShape₂ := generationFile_shape hFile₂
  by_cases hSlash : '/' ∈ ending
  · rcases Text.exists_last_occurrence hSlash with ⟨x, last, hEnding, hLast⟩
    rw [hEnding] at hPath hKey hKey'
    simp only [← List.append_assoc] at hPath hKey hKey'
    rw [Text.append_lastSep_inj hLast hFile] at hPath
    rw [Text.append_lastSep_inj hLast hShape₁.2.1] at hKey
    rw [Text.append_lastSep_inj hLast hShape₂.2.1] at hKey'
    have hShift : ∀ {index : Nat} {part : Text},
        front ++ dottedName ++ partSuffix index 2 ++ x = dir ++ part →
        partSuffix index 2 ++ x = x ++ part := by
      intro index part hEq
      rw [← hPath.1] at hEq
      simp only [List.append_assoc] at hEq
      exact List.append_cancel_left (List.append_cancel_left hEq)
    have hNil := eq_nil_of_shift hPart (hShift hKey.1) (hShift hKey'.1)
    rw [hNil, List.append_nil] at hPath
    refine ⟨by rw [hEnding, hNil, hPath.2]; rfl, ?_, hPath.1.symm⟩
    rw [← hPath.2, hKey.2]
    exact hFile₁
  · -- the name and the suffix would be in the file
    have hRest : '/' ∉ dottedName ++ partSuffix 1 2 ++ ending := by
      have hBoth : '/' ∉ dottedName ++ partSuffix 1 2 := by decide
      rw [List.mem_append, not_or]
      exact ⟨hBoth, hSlash⟩
    have hSplit := congrArg (fun p => (Path.splitFile p).2) hKey
    rw [Path.splitFile_append_file _ hRest, Path.splitFile_append _ hShape₁.2.1] at hSplit
    have hDots := congrArg (List.count '.') hSplit
    have hTwo : (dottedName ++ partSuffix 1 2).count '.' = 2 := by decide
    rw [hShape₁.2.2, List.count_append, List.count_append, hTwo] at hDots
    omega

/- The parts of one name give the shape away. -/
theorem stemEnding_of_matches
    {m : KeyMatcher} (hFor : MatcherFor (front ++ (dottedName ++ ending)) m)
    (hParts : ∀ index, index = 1 ∨ index = 2 →
      m.matchesKey (front ++ (dottedName ++ partSuffix index 2 ++ ending)) = true) :
    StemEnding front ending := by
  cases hFor with
  | @extension stem word hPath hDot hSlash hHive =>
    have hEnding := ending_of_extension hPath hDot
      fun index hIndex => KeyMatcher.matchesKey_flat_iff.mp (hParts index hIndex)
    rw [hEnding] at hHive ⊢
    rw [isHivePath_append isObjectName_dottedName hSlash] at hHive
    exact .extension hDot hSlash hHive
  | @hive dir file hPath hFile hHive =>
    rcases ending_of_hive hPath hFile fun index hIndex =>
      KeyMatcher.matchesKey_hive_iff.mp (hParts index hIndex)
      with ⟨hEnding, hGeneration, hDir⟩
    unfold isHivePath at hHive
    rw [hPath, Path.splitFile_append _ hFile, Bool.and_eq_true, Text.contains_iff_isInfix, hDir,
      List.append_assoc] at hHive
    rw [hEnding]
    exact .generation (Text.contains_iff_isInfix.mpr
        (Text.infix_of_infix_append (d := '=') (by decide) (by decide) hHive.2)) hGeneration
  | plain hInner _ =>
    rcases KeyMatcher.matchesKey_flat_iff.mp (hParts 1 (Or.inl rfl)) with ⟨part, hPart, hKey⟩
    rcases KeyMatcher.matchesKey_flat_iff.mp (hParts 2 (Or.inr rfl)) with ⟨part', -, hKey'⟩
    simp only [List.append_nil, List.append_assoc, List.append_cancel_left_eq] at hKey hKey'
    have hNil := eq_nil_of_shift hPart hKey hKey'
    -- the dot of the name is inside the file
    have hDotted := hInner front 'a' ('b' :: ending) rfl
    rw [hNil] at hDotted
    exact absurd hDotted (by decide)

end Shape

/- A `./` that the cleanup cuts off is never matched. -/
theorem matchesKey_dotSlash {p : Text} {m : KeyMatcher} (hFor : MatcherFor p m) :
    m.matchesKey ('.' :: '/' :: p) = false := by
  have hLength : ∀ {part : Text}, optionalPart part = true → part.length ≠ 2 := by
    intro part hPart hTwo
    rcases optionalPart_cases hPart with hEmpty | ⟨hIs, -⟩
    · rw [hEmpty] at hTwo
      cases hTwo
    · rcases isPartSuffix_iff.mp hIs with ⟨index, total, hIndex, -, hTotal, -, hEq⟩
      rw [hEq] at hTwo
      simp only [List.length_append] at hTwo
      omega
  rw [Bool.eq_false_iff]
  intro hMatch
  cases hFor with
  | @hive dir file hPath hFile _ =>
    rcases KeyMatcher.matchesKey_hive_iff.mp hMatch with ⟨part, file', hPart, hFile', hKey⟩
    have hSplit : '.' :: '/' :: p = ('.' :: '/' :: dir) ++ '/' :: file := by
      rw [hPath]
      rfl
    rw [hSplit, ← List.append_assoc, Text.append_lastSep_inj
      hFile (generationFile_shape hFile').2.1] at hKey
    have hEq := congrArg List.length hKey.1
    simp only [List.length_cons, List.length_append] at hEq
    exact hLength hPart (by omega)
  | @extension stem word hPath _ _ _ =>
    rcases KeyMatcher.matchesKey_flat_iff.mp hMatch with ⟨part, hPart, hKey⟩
    have hEq := congrArg List.length hKey
    rw [hPath] at hEq
    simp only [List.length_cons, List.length_append] at hEq
    exact hLength hPart (by omega)
  | plain _ _ =>
    rcases KeyMatcher.matchesKey_flat_iff.mp hMatch with ⟨part, hPart, hKey⟩
    have hEq := congrArg List.length hKey
    simp only [List.length_cons, List.length_append, List.length_nil] at hEq
    exact hLength hPart (by omega)

----
-- The Set Manifest
----

def dotWords (s : Text) : List Text := s.splitOn '.'

theorem dotWords_append (a b : Text) : dotWords (a ++ '.' :: b) = dotWords a ++ dotWords b :=
  List.splitOnP_append_cons a b (by decide)

theorem dotWords_word {s : Text} (hDot : '.' ∉ s) : dotWords s = [s] :=
  List.splitOnP_eq_singleton fun c hC => by
    have hNe : c ≠ '.' := fun hEq => hDot (hEq ▸ hC)
    simpa using hNe

theorem dotWords_cons {c : Char} (hC : c ≠ '.') (s : Text) :
    ∃ word rest, dotWords (c :: s) = (c :: word) :: rest := by
  unfold dotWords List.splitOn
  rw [List.splitOnP_cons_eq_if_modifyHead, if_neg (by simpa using hC)]
  cases hWords : List.splitOnP (fun d => d == '.') s with
  | nil => exact absurd hWords (List.splitOnP_ne_nil _ s)
  | cons word rest => exact ⟨word, rest, rfl⟩

theorem part_word (hPart : isPartSuffix part = true) :
    ∃ rest, part = '.' :: 'p' :: rest ∧ '.' ∉ 'p' :: rest := by
  have hOptional : optionalPart part = true := by
    unfold optionalPart
    rw [hPart, Bool.or_true]
  rcases isPartSuffix_iff.mp hPart with ⟨index, total, -, -, -, -, hEq⟩
  rcases optionalPart_cases hOptional with hEmpty | ⟨-, -, tail, hTail, hDot⟩
  · rw [hEmpty] at hPart
    exact absurd hPart (by decide)
  · have hMarker : (".part-" : Text) = '.' :: 'p' :: ("art-" : Text) := by decide
    rw [hEq, hMarker] at hTail
    rw [← (List.cons.inj hTail).2] at hDot
    exact ⟨_, by rw [hEq, hMarker]; rfl, hDot⟩

/- The key of a part of the set manifest. -/
def manifestKey (ns part : Text) : Text :=
  ("inventory/" : Text) ++ ns ++ '/' ::
    (dottedName ++ (".manifest" : Text)) ++ (part ++ '.' :: ("json" : Text))

/- A part of a document is no part of the set manifest. -/
theorem manifest_matches_no_part {front ending ns : Text} (hNs : isDnsLabel ns = true)
    (hPart : optionalPart part = true) (index : Nat) :
    front ++ (dottedName ++ partSuffix index 2 ++ ending) ≠ manifestKey ns part := by
  intro hKey
  rcases part_word (isPartSuffix_partSuffix index 2) with ⟨suffix, hSuffix, -⟩
  rcases dotWords_cons (show 'p' ≠ '.' by decide) (suffix ++ ending) with ⟨word, rest, hWord⟩
  have hKept : dotWords (front ++ (dottedName ++ partSuffix index 2 ++ ending)) =
        dotWords (front ++ ['a']) ++ ['b'] :: ('p' :: word) :: rest := by
    have hSplit : front ++ (dottedName ++ partSuffix index 2 ++ ending) =
          (front ++ ['a']) ++ '.' :: (['b'] ++ '.' :: ('p' :: (suffix ++ ending))) := by
      have hName : dottedName = ['a', '.', 'b'] := by decide
      rw [hSuffix, hName]
      simp
    rw [hSplit, dotWords_append, dotWords_append, @dotWords_word ['b'] (by decide), hWord]
    rfl
  have hFirst : '.' ∉ ("inventory/" : Text) ++ ns ++ ['/', 'a'] := by
    have hLabel : '.' ∉ ns := fun hMem => absurd ((isDnsLabel_mem hNs).2 '.' hMem) (by decide)
    have hDir : '.' ∉ ("inventory/" : Text) := by decide
    simp only [List.mem_append, not_or]
    exact ⟨⟨hDir, hLabel⟩, by decide⟩
  have hSplit : manifestKey ns part =
      (("inventory/" : Text) ++ ns ++ ['/', 'a']) ++ '.' ::
        (['b'] ++ '.' :: (("manifest" : Text) ++ part ++ '.' :: ("json" : Text))) := by
    have hName : dottedName ++ (".manifest" : Text) =
        'a' :: '.' :: 'b' :: '.' :: ("manifest" : Text) := by
      decide
    unfold manifestKey
    rw [hName]
    simp only [List.append_assoc, List.cons_append, List.nil_append]
  have hInventory : ∃ more, ("inventory/" : Text) ++ ns ++ ['/', 'a'] = 'i' :: more :=
    ⟨("nventory/" : Text) ++ ns ++ ['/', 'a'], by
      have hI : ("inventory/" : Text) = 'i' :: ("nventory/" : Text) := by decide
      rw [hI]
      rfl⟩
  have hWords := congrArg dotWords hKey
  rw [hKept, hSplit, dotWords_append, dotWords_append, dotWords_append, dotWords_word hFirst,
    @dotWords_word ['b'] (by decide), @dotWords_word "json" (by decide)] at hWords
  rcases hInventory with ⟨more, hMore⟩
  rw [hMore] at hWords
  generalize dotWords (front ++ ['a']) = before at hWords
  rcases optionalPart_cases hPart with hEmpty | ⟨hIs, -⟩
  · rw [hEmpty, List.append_nil, @dotWords_word "manifest" (by decide)] at hWords
    rcases before with _ | ⟨x, _ | ⟨y, _ | ⟨z, before⟩⟩⟩
    · simp at hWords
    · simp at hWords
    · simp at hWords
    · have hLength := congrArg List.length hWords
      simp only [List.length_append, List.length_cons, List.length_nil] at hLength
      omega
  · rcases part_word hIs with ⟨tail, hTail, hDot⟩
    rw [hTail, dotWords_append, @dotWords_word "manifest" (by decide), dotWords_word hDot] at hWords
    rcases before with _ | ⟨x, _ | ⟨y, _ | ⟨z, _ | ⟨w, before⟩⟩⟩⟩
    · simp at hWords
    · simp at hWords
    · simp at hWords
    · simp at hWords
    · have hLength := congrArg List.length hWords
      simp only [List.length_append, List.length_cons, List.length_nil] at hLength
      omega

theorem manifestKey_shape {ns suffix : Text} (hSuffix : optionalPart suffix = true) :
    ['.', '/'].isPrefixOf (manifestKey ns suffix) = false ∧
      isHivePath (manifestKey ns suffix) = false := by
  have hName : dottedName ++ (".manifest" : Text) = 'a' :: (".b.manifest" : Text) := by decide
  have hDir : ("inventory/" : Text) = 'i' :: ("nventory/" : Text) := by decide
  have hFile : '/' ∉ 'a' :: ((".b.manifest" : Text) ++ (suffix ++ '.' :: ("json" : Text))) := by
    simp [slash_notMem_part hSuffix]
  have hKey : manifestKey ns suffix = (("inventory/" : Text) ++ ns) ++ '/' ::
        'a' :: ((".b.manifest" : Text) ++ (suffix ++ '.' :: ("json" : Text))) := by
    unfold manifestKey
    rw [hName]
    simp only [List.append_assoc, List.cons_append]
  constructor
  · rw [hKey, hDir]
    rfl
  · unfold isHivePath
    rw [hKey, Path.splitFile_append _ hFile]
    rfl

end Sink
end Kollect
