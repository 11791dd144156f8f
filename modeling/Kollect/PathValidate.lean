import Kollect.Foundation.Path

/-
  The checks and readings of object paths (`pathvalidate/path.go`).

  Key theorems include:
    * `inventoryFromObjectPath_eq_iff`
-/

namespace Kollect
namespace PathValidate

inductive PathError where
  | nullByte
  | notRelative
  | parentSegment
deriving DecidableEq, Repr

/- Clean an object path; an empty one stays empty. -/
def validateRelativeObjectPath (objectPath : Text) : Except PathError Text :=
  let objectPath := Text.trimSpace objectPath
  if objectPath = [] then .ok []
  else if '\x00' ∈ objectPath then .error .nullByte
  else
    let clean := Path.clean objectPath
    if Path.isAbs clean then .error .notRelative
    else if clean = ['.', '.'] ∨ ("../" : Text).isPrefixOf clean ∨
        Text.contains clean "/../" then
      .error .parentSegment
    else .ok clean

/- The template is relative and has no `..` anywhere. -/
def rejectTraversal (p : Text) : Bool :=
  let p := Text.trimSpace p
  p ≠ [] && (Path.isAbs p || Text.contains p "..")

/- Namespace and name, taken from the first two segments. -/
def inventoryFromObjectPath (objectPath : Text) : Text × Text :=
  match Path.segments (Text.trimStart (Text.trimSpace objectPath) "inventory/") with
  | ns :: name :: _ => (ns, Text.trimEnd name ".json")
  | [single] => (single, [])
  | [] => ([], [])

/- The file name is the name with or without the ending. -/
theorem trimEnd_eq_iff {file name back : Text} : Text.trimEnd file back = name ↔
      file = name ++ back ∨ file = name ∧ back.isSuffixOf name = false := by
  unfold Text.trimEnd
  split_ifs with hBack
  · obtain ⟨front, rfl⟩ := List.isSuffixOf_iff_suffix.mp hBack
    rw [List.length_append, Nat.add_sub_cancel, List.take_left]
    constructor
    · rintro rfl
      exact .inl rfl
    · rintro (hEq | ⟨rfl, hNot⟩)
      · exact List.append_cancel_right hEq
      · rw [hBack] at hNot
        cases hNot
  · constructor
    · rintro rfl
      exact .inr ⟨rfl, Bool.eq_false_iff.mpr hBack⟩
    · rintro (rfl | ⟨rfl, -⟩)
      · exact absurd (List.isSuffixOf_iff_suffix.mpr (List.suffix_append name back)) hBack
      · rfl

/- The first two segments are the namespace and the file. -/
def BeginsWithIdentity (p ns name : Text) : Prop :=
  ∃ file rest, Path.segments (Text.trimStart (Text.trimSpace p) "inventory/") = ns :: file :: rest ∧
    (file = name ++ (".json" : Text) ∨ file = name ∧ (".json" : Text).isSuffixOf name = false)

theorem inventoryFromObjectPath_eq_iff {p ns name : Text} (hName : name ≠ []) :
    inventoryFromObjectPath p = (ns, name) ↔ BeginsWithIdentity p ns name := by
  unfold inventoryFromObjectPath BeginsWithIdentity
  rcases hSegments : Path.segments
      (Text.trimStart (Text.trimSpace p) "inventory/") with
    _ | ⟨first, _ | ⟨second, rest⟩⟩
  · simp [Ne.symm hName]
  · simp [Ne.symm hName]
  · simp only [Prod.mk.injEq, trimEnd_eq_iff, List.cons.injEq]
    constructor
    · rintro ⟨rfl, hFile⟩
      exact ⟨second, rest, ⟨rfl, rfl, rfl⟩, hFile⟩
    · rintro ⟨file, rest', ⟨rfl, rfl, rfl⟩, hFile⟩
      exact ⟨rfl, hFile⟩

theorem slash_notMem_inventoryFromObjectPath (p : Text) :
    '/' ∉ (inventoryFromObjectPath p).1 ∧ '/' ∉ (inventoryFromObjectPath p).2 := by
  unfold inventoryFromObjectPath
  have hNone : ∀ s ∈ Path.segments (Text.trimStart (Text.trimSpace p) "inventory/"), '/' ∉ s :=
    fun s hS => Path.slash_notMem_of_mem_segments hS
  split
  · rename_i ns name rest hSegments
    rw [hSegments] at hNone
    refine ⟨hNone ns (by simp), fun hMem => ?_⟩
    have hName := hNone name (by simp)
    unfold Text.trimEnd at hMem
    split_ifs at hMem
    · exact hName (List.mem_of_mem_take hMem)
    · exact hName hMem
  · rename_i single hSegments
    rw [hSegments] at hNone
    exact ⟨hNone single (by simp), by simp⟩
  · simp

/- An accepted path is empty, the root itself, or a clean path of names below it. -/
theorem accepted_path_stays_below {p a : Text}
    (hOk : validateRelativeObjectPath p = .ok a) (hNe : a ≠ [])
    (hRoot : a ≠ ['.']) : ∀ s ∈ Path.segments a, Path.Plain s := by
  unfold validateRelativeObjectPath at hOk
  dsimp only at hOk
  split_ifs at hOk with hBlank hNul hAbs hUp
  · cases hOk
    exact absurd rfl hNe
  · obtain rfl := Except.ok.inj hOk
    have hRelative : Path.isAbs (Text.trimSpace p) = false := by
      by_contra hRooted
      rw [Bool.not_eq_false] at hRooted
      simp only [Path.clean, hRooted, if_true] at hAbs
      exact hAbs rfl
    rcases Path.exists_kept hRelative hRoot with ⟨kept, hKept, hJoin, hSegments⟩
    rw [hSegments]
    intro s hS
    obtain ⟨hS1, hS2, -⟩ := hKept.1 s (List.mem_reverse.mp hS)
    refine ⟨hS1, hS2, ?_⟩
    rintro rfl
    have hLast := hKept.2 (List.mem_reverse.mp hS)
    rw [← List.head?_reverse, List.head?_eq_some_iff] at hLast
    rcases hLast with ⟨rest, hRest⟩
    rw [hJoin, hRest] at hUp
    cases rest with
    | nil => exact hUp (.inl rfl)
    | cons next rest => exact hUp (.inr (.inl (by simp [Path.join, List.intercalate])))

/- What goes up and comes back stays below. -/
theorem detour_is_cut_off : Path.Plain "web.json" :=
  accepted_path_stays_below (p := " team/./a/../web.json") (a := "team/web.json") (by decide)
    (by decide) (by decide) _ (by decide)

end PathValidate
end Kollect
