import Kollect.Foundation.Text

/-
  Slash-separated paths, as Go's `path` package handles them.

  Key theorems include:
    * `Path.segments_append_sep`
    * `Path.segments_eq_singleton`
    * `Path.mem_segments_iff`
-/

namespace Path

----
-- Segments
----

variable (p : Text)

/- The parts between slashes; an empty path has one. -/
def segments : List Text := p.splitOn '/'

def join (parts : List Text) : Text := ['/'].intercalate parts

/- The paths from the first segment down to the whole path. -/
def components : List Text := ((segments p).inits.drop 1).map join

def isAbs : Bool := p.head? = some '/'

/- The directory with its trailing slash, and the file. -/
def splitFile : Text × Text :=
  let file := (p.reverse.takeWhile (fun c => c ≠ '/')).reverse
  (p.take (p.length - file.length), file)

----
-- Cleaning
----

/-
  One segment onto the kept ones, which are in reverse. A `..` drops the segment before it; at the
  root it is dropped itself, and in a relative path a leading one stays.
-/
def cleanStep (rooted : Bool) (kept : List Text) (segment : Text) : List Text :=
  if segment = [] ∨ segment = ['.'] then kept
  else if segment = ['.', '.'] then
    match kept with
    | [] => if rooted then [] else [segment]
    | last :: rest => if last = ['.', '.'] then segment :: kept else rest
  else segment :: kept

def clean : Text :=
  let kept := (segments p).foldl (cleanStep (isAbs p)) []
  let body := join kept.reverse
  if isAbs p then '/' :: body
  else if body = [] then ['.']
  else body

/- `path.Join`: empty elements are left out. -/
def joinClean (elements : List Text) : Text :=
  match elements.filter (fun p => p ≠ []) with
  | [] => []
  | parts => clean (join parts)

----
-- Reading Segments
----

theorem segments_cons_sep : segments ('/' :: p) = [] :: segments p := by
  simp [segments, List.splitOn, List.splitOnP_cons_eq_if_modifyHead]

theorem segments_ne_nil : segments p ≠ [] := List.splitOnP_ne_nil _ p

theorem segments_cons_of_ne {c : Char} (hC : c ≠ '/') (p : Text) :
    segments (c :: p) = (segments p).modifyHead (fun s => c :: s) := by
  unfold segments List.splitOn
  rw [List.splitOnP_cons_eq_if_modifyHead, if_neg (by simpa using hC)]

theorem slash_notMem_of_mem_segments {p s : Text} (hS : s ∈ segments p) : '/' ∉ s := by
  induction p generalizing s with
  | nil =>
    obtain rfl : s = [] := by simpa [segments] using hS
    exact List.not_mem_nil
  | cons c p ih =>
    by_cases hC : c = '/'
    · subst hC
      rw [segments_cons_sep] at hS
      rcases List.mem_cons.mp hS with rfl | hTail
      · exact List.not_mem_nil
      · exact ih hTail
    · rw [segments_cons_of_ne hC] at hS
      cases hSegments : segments p with
      | nil => exact absurd hSegments (segments_ne_nil p)
      | cons first rest =>
        rw [hSegments, List.modifyHead_cons] at hS
        rw [hSegments] at ih
        rcases List.mem_cons.mp hS with rfl | hTail
        · have hFirst := ih List.mem_cons_self
          simp [hFirst, Ne.symm hC]
        · exact ih (List.mem_cons_of_mem _ hTail)

variable {a : Text}

theorem segments_append_sep (hA : '/' ∉ a) (p : Text) :
    segments (a ++ '/' :: p) = a :: segments p := by
  induction a with
  | nil => exact segments_cons_sep p
  | cons c a ih =>
    have hC : c ≠ '/' := by
      rintro rfl
      exact hA List.mem_cons_self
    have hTail := ih (fun h => hA (List.mem_cons_of_mem c h))
    rw [List.cons_append, segments_cons_of_ne hC, hTail]
    rfl

theorem segments_eq_singleton (hA : '/' ∉ a) : segments a = [a] := by
  refine List.splitOnP_eq_singleton fun c hC => ?_
  have hNe : c ≠ '/' := fun h => hA (h ▸ hC)
  simpa using hNe

theorem segments_append (p q : Text) : segments (p ++ '/' :: q) = segments p ++ segments q :=
  List.splitOnP_append_cons p q (beq_self_eq_true '/')

/- A segment is delimited by slashes, or by an end of the path. -/
theorem mem_segments_iff {p s : Text} :
    s ∈ segments p ↔ '/' ∉ s ∧ ∃ before after, p = before ++ s ++ after ∧
      (before = [] ∨ ∃ front, before = front ++ ['/']) ∧
      (after = [] ∨ ∃ rest, after = '/' :: rest) := by
  constructor
  · intro hS
    refine ⟨slash_notMem_of_mem_segments hS, ?_⟩
    have hJoin : join (segments p) = p := List.intercalate_splitOn '/'
    rw [← hJoin]
    generalize segments p = parts at hS
    induction parts with
    | nil => cases hS
    | cons a parts ih =>
      rcases List.mem_cons.mp hS with rfl | hRest
      · cases parts with
        | nil => exact ⟨[], [], by simp [join], .inl rfl, .inl rfl⟩
        | cons b parts =>
          exact ⟨[], '/' :: join (b :: parts), by simp [join], .inl rfl, .inr ⟨_, rfl⟩⟩
      · rcases ih hRest with ⟨before, after, hParts, hBefore, hAfter⟩
        obtain ⟨b, parts, rfl⟩ := List.exists_cons_of_ne_nil (List.ne_nil_of_mem hRest)
        have hCons : join (a :: b :: parts) = a ++ '/' :: join (b :: parts) := by simp [join]
        refine ⟨a ++ '/' :: before, after, by rw [hCons, hParts]; simp, .inr ?_, hAfter⟩
        rcases hBefore with rfl | ⟨front, rfl⟩
        · exact ⟨a, rfl⟩
        · exact ⟨a ++ '/' :: front, by simp⟩
  · rintro ⟨hSlash, before, after, rfl, hBefore, hAfter⟩
    have hHere : s ∈ segments (s ++ after) := by
      rcases hAfter with rfl | ⟨rest, rfl⟩
      · rw [List.append_nil, segments_eq_singleton hSlash]
        exact List.mem_singleton_self s
      · rw [segments_append_sep hSlash]
        exact List.mem_cons_self
    rcases hBefore with rfl | ⟨front, rfl⟩
    · exact hHere
    · rw [List.append_assoc, List.append_assoc, List.singleton_append, segments_append]
      exact List.mem_append_right _ hHere

theorem exists_first_segment :
    ∃ s rest, p = s ++ rest ∧ '/' ∉ s ∧ (rest = [] ∨ ∃ tail, rest = '/' :: tail) := by
  induction p with
  | nil => exact ⟨[], [], rfl, List.not_mem_nil, .inl rfl⟩
  | cons c p ih =>
    by_cases hC : c = '/'
    · exact ⟨[], c :: p, rfl, List.not_mem_nil, .inr ⟨p, by rw [hC]⟩⟩
    · rcases ih with ⟨s, rest, rfl, hS, hRest⟩
      exact ⟨c :: s, rest, rfl, by simpa [Ne.symm hC] using hS, hRest⟩

theorem splitFile_append_file {rest : Text} (hRest : '/' ∉ rest) :
    splitFile (p ++ rest) = ((splitFile p).1, (splitFile p).2 ++ rest) := by
  have hTake : ((p ++ rest).reverse.takeWhile (fun c => c ≠ '/')).reverse =
      (p.reverse.takeWhile (fun c => c ≠ '/')).reverse ++ rest := by
    rw [List.reverse_append, List.takeWhile_append_of_pos]
    · simp
    · intro c hC
      have hNe : c ≠ '/' := by
        rintro rfl
        exact hRest (List.mem_reverse.mp hC)
      simpa using hNe
  unfold splitFile
  simp only [hTake, Prod.mk.injEq, and_true]
  rw [List.length_append, List.length_append, Nat.add_sub_add_right, List.take_append_of_le_length]
  exact Nat.sub_le _ _

theorem splitFile_append (dir : Text) {file : Text} (hFile : '/' ∉ file) :
    splitFile (dir ++ '/' :: file) = (dir ++ ['/'], file) := by
  have hDir : splitFile (dir ++ ['/']) = (dir ++ ['/'], []) := by simp [splitFile]
  rw [← List.singleton_append, ← List.append_assoc, splitFile_append_file _ hFile, hDir]
  rfl

theorem splitFile_spec : p = (splitFile p).1 ++ (splitFile p).2 ∧ '/' ∉ (splitFile p).2 ∧
      ((splitFile p).1 = [] ∨ ∃ dir, (splitFile p).1 = dir ++ ['/']) := by
  by_cases hSlash : '/' ∈ p
  · rcases Text.exists_last_occurrence hSlash with ⟨dir, file, hP, hFile⟩
    rw [hP, splitFile_append _ hFile]
    exact ⟨by simp, hFile, Or.inr ⟨dir, rfl⟩⟩
  · have hWhole : splitFile p = ([], p) := splitFile_append_file [] hSlash
    rw [hWhole]
    exact ⟨rfl, hSlash, Or.inl rfl⟩

/- A segment that cleaning keeps. -/
def Plain (segment : Text) : Prop := segment ≠ [] ∧ segment ≠ ['.'] ∧ segment ≠ ['.', '.']

theorem cleanStep_plain {segment : Text} (hPlain : Plain segment) (rooted : Bool)
    (kept : List Text) : cleanStep rooted kept segment = segment :: kept := by
  simp [cleanStep, hPlain.1, hPlain.2.1, hPlain.2.2]

theorem joinClean_dir {b file : Text} (hA : '/' ∉ a) (hAPlain : Plain a) (hB : '/' ∉ b)
    (hBPlain : Plain b) (hFile : '/' ∉ file) (hFilePlain : Plain file) :
    joinClean [a ++ '/' :: b ++ ['/'], file] = a ++ '/' :: (b ++ '/' :: file) := by
  have hElements : [a ++ '/' :: b ++ ['/'], file].filter
      (fun p => p ≠ []) = [a ++ '/' :: b ++ ['/'], file] := by
    simp [hFilePlain.1]
  have hJoin : join [a ++ '/' :: b ++ ['/'], file] = a ++ '/' :: (b ++ '/' :: ('/' :: file)) := by
    simp [join, List.intercalate]
  have hSegments : segments (a ++ '/' :: (b ++ '/' :: ('/' :: file))) = [a, b, [], file] := by
    rw [segments_append_sep hA, segments_append_sep hB,
      segments_cons_sep, segments_eq_singleton hFile]
  have hRelative : isAbs (a ++ '/' :: (b ++ '/' :: ('/' :: file))) = false := by
    cases a with
    | nil => exact absurd rfl hAPlain.1
    | cons c a =>
      have hC : c ≠ '/' := by
        rintro rfl
        exact hA List.mem_cons_self
      simpa [isAbs] using hC
  have hEmpty : ∀ kept, cleanStep false kept [] = kept := by
    intro kept
    simp [cleanStep]
  unfold joinClean
  rw [hElements]
  dsimp only
  rw [hJoin, clean, hSegments, hRelative]
  simp only [List.foldl_cons, List.foldl_nil, hEmpty,
    cleanStep_plain hAPlain, cleanStep_plain hBPlain, cleanStep_plain hFilePlain]
  have hBody : join [a, b, file] = a ++ '/' :: (b ++ '/' :: file) := by
    simp [join, List.intercalate]
  simp [hBody]

theorem components_child {dir name : Text} (hDir : '/' ∉ dir) (hName : '/' ∉ name) :
    components (dir ++ '/' :: name) = [dir, dir ++ '/' :: name] := by
  rw [components, segments_append_sep hDir, segments_eq_singleton hName]
  simp [join, List.intercalate]

/- Kept segments in reverse. A `..` is kept only when all before it are. -/
def Kept (kept : List Text) : Prop :=
  (∀ s ∈ kept, s ≠ [] ∧ s ≠ ['.'] ∧ '/' ∉ s) ∧
    (['.', '.'] ∈ kept → kept.getLast? = some ['.', '.'])

theorem kept_cleanStep {kept : List Text} (hKept : Kept kept) {segment : Text}
    (hSlash : '/' ∉ segment) : Kept (cleanStep false kept segment) := by
  unfold Kept at *
  unfold cleanStep
  simp only [Bool.false_eq_true, if_false]
  split_ifs with hSkip hUp
  · exact hKept
  · rcases kept with _ | ⟨last, _ | ⟨next, rest⟩⟩
    · grind
    · dsimp only
      split_ifs <;> grind
    · dsimp only
      split_ifs <;> grind
  · cases kept <;> grind

theorem kept_foldl {l : List Text} (hSlash : ∀ s ∈ l, '/' ∉ s) {kept : List Text}
    (hKept : Kept kept) : Kept (l.foldl (cleanStep false) kept) := by
  induction l generalizing kept with
  | nil => exact hKept
  | cons s l ih =>
    rw [List.forall_mem_cons] at hSlash
    exact ih hSlash.2 (kept_cleanStep hKept hSlash.1)

theorem exists_kept {p : Text} (hRelative : isAbs p = false) (hRoot : clean p ≠ ['.']) :
    ∃ kept, Kept kept ∧ clean p = join kept.reverse ∧ segments (clean p) = kept.reverse := by
  have hKept := kept_foldl (fun s hS => slash_notMem_of_mem_segments hS)
    (⟨by simp, by simp⟩ : Kept []) (l := segments p)
  simp only [clean, hRelative, Bool.false_eq_true, if_false] at hRoot ⊢
  generalize (segments p).foldl (cleanStep false) [] = kept at hKept hRoot ⊢
  split_ifs at hRoot ⊢ with hBody
  · exact absurd rfl hRoot
  · refine ⟨kept, hKept, rfl, List.splitOn_intercalate _ ?_ ?_⟩
    · exact fun s hS => (hKept.1 s (List.mem_reverse.mp hS)).2.2
    · rintro hNil
      rw [hNil] at hBody
      exact hBody rfl

end Path
