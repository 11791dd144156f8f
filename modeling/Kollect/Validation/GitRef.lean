import Kollect.Foundation.Path

/-
  Admission of branch names (`internal/validation/git.go`).

  The checks are on the whole name, while Git's rules are on each component between two slashes.

  Key theorems include:
    * `refFormat_iff`
-/

namespace Kollect
namespace Validation

inductive GitRefError where
  | empty
  | leadingDash (ref : Text)
  | dotDot (ref : Text)
  | leadingDot (ref : Text)
  | invalidSuffix (ref : Text)
  | invalidAt (ref : Text)
  | notShort (ref : Text)
  | unsupported (ref : Text)
deriving DecidableEq

def isRefRune (c : Char) : Bool := c.isAlphanum || c ∈ ['.', '_', '/', '-']

def safeGitRefPattern (ref : Text) : Bool := ref.head?.any Char.isAlphanum && ref.all isRefRune

def validateGitRef (ref : Text) : Except GitRefError Unit :=
  let ref := Text.trimSpace ref
  if ref = [] then .error .empty
  else if ("-" : Text).isPrefixOf ref then .error (.leadingDash ref)
  else if ref = "." ∨ ref = ".." ∨ Text.contains ref ".." then .error (.dotDot ref)
  else if ("." : Text).isPrefixOf ref then .error (.leadingDot ref)
  else if ("." : Text).isSuffixOf ref ∨ (".lock" : Text).isSuffixOf ref then
    .error (.invalidSuffix ref)
  else if ref = "@" ∨ Text.contains ref ['@', '\x7b'] then .error (.invalidAt ref)
  else if ("refs/" : Text).isPrefixOf ref then .error (.notShort ref)
  else if !safeGitRefPattern ref then .error (.unsupported ref)
  else .ok ()

/- What `git check-ref-format --branch` asks of a name. -/
structure RefFormat (name : Text) : Prop where
  components : ∀ part ∈ Path.segments name,
    part ≠ [] ∧ ¬ ("." : Text) <+: part ∧ ¬ (".lock" : Text) <:+ part
  dots : ¬ (".." : Text) <:+: name
  ending : ¬ ("." : Text) <:+ name
  runes : ∀ c ∈ name, 0x20 < c.toNat ∧ c.toNat ≠ 0x7f ∧ c ∉ ("~^:?*[\\" : Text)
  brace : ¬ ['@', '\x7b'] <:+: name
  notAt : name ≠ ("@" : Text)
  dash : ¬ ("-" : Text) <+: name
  notHead : name ≠ ("HEAD" : Text)

/- What the checks on the whole name leave open: all of it is about a slash, or the name `HEAD`. -/
structure SlashesPlain (name : Text) : Prop where
  doubled : ¬ ("//" : Text) <:+: name
  trailing : ¬ ("/" : Text) <:+ name
  dotted : ¬ ("/." : Text) <:+: name
  locked : ¬ (".lock/" : Text) <:+: name
  notHead : name ≠ ("HEAD" : Text)

----
-- Accepted Names
----

theorem plain_of_isRefRune {c : Char} (hC : isRefRune c = true) :
    0x20 < c.toNat ∧ c.toNat ≠ 0x7f ∧ c ∉ ("~^:?*[\\" : Text) := by
  have hOdd : (("~^:?*[\\" : Text).all fun c => !isRefRune c) = true := by decide
  have hRange : 0x20 < c.toNat ∧ c.toNat < 0x7f := by
    unfold isRefRune Char.isAlphanum Char.isAlpha Char.isUpper Char.isLower Char.isDigit at hC
    simp only [Bool.or_eq_true, Bool.and_eq_true, decide_eq_true_eq, List.mem_cons,
      List.not_mem_nil, or_false, ge_iff_le, UInt32.le_iff_toNat_le] at hC
    rcases hC with ((⟨hLow, hHigh⟩ | ⟨hLow, hHigh⟩) | ⟨hLow, hHigh⟩) | rfl | rfl | rfl | rfl
    · exact ⟨lt_of_lt_of_le (by decide) hLow, lt_of_le_of_lt hHigh (by decide)⟩
    · exact ⟨lt_of_lt_of_le (by decide) hLow, lt_of_le_of_lt hHigh (by decide)⟩
    · exact ⟨lt_of_lt_of_le (by decide) hLow, lt_of_le_of_lt hHigh (by decide)⟩
    all_goals decide
  refine ⟨hRange.1, hRange.2.ne, fun hMem => ?_⟩
  have hNot := List.all_eq_true.mp hOdd c hMem
  rw [hC] at hNot
  cases hNot

section Components

variable {name : Text}

/- A component that Git refuses stands at an end of the name or next to a slash. -/
theorem plain_component (hNe : name ≠ []) (hSlash : name.head? ≠ some '/')
    (hDot : ¬ ("." : Text) <+: name) (hLock : ¬ (".lock" : Text) <:+ name)
    (hPlain : SlashesPlain name) {part : Text} (hPart : part ∈ Path.segments name) :
    part ≠ [] ∧ ¬ ("." : Text) <+: part ∧ ¬ (".lock" : Text) <:+ part := by
  rcases Path.mem_segments_iff.mp hPart with ⟨-, before, after, rfl, hBefore, hAfter⟩
  refine ⟨?_, ?_, ?_⟩
  · rintro rfl
    rcases hBefore with rfl | ⟨front, rfl⟩
    · rcases hAfter with rfl | ⟨rest, rfl⟩
      · exact hNe rfl
      · exact hSlash rfl
    · rcases hAfter with rfl | ⟨rest, rfl⟩
      · exact hPlain.trailing ⟨front, by simp⟩
      · exact hPlain.doubled ⟨front, rest, by simp⟩
  · rintro ⟨tail, rfl⟩
    rcases hBefore with rfl | ⟨front, rfl⟩
    · exact hDot ⟨tail ++ after, by simp⟩
    · exact hPlain.dotted ⟨front, tail ++ after, by simp⟩
  · rintro ⟨stem, rfl⟩
    rcases hAfter with rfl | ⟨rest, rfl⟩
    · exact hLock ⟨before ++ stem, by simp⟩
    · exact hPlain.locked ⟨before ++ stem, rest, by simp⟩

/- A slash next to another one, to an end, a dot or `.lock` delimits a component that is refused. -/
theorem slashesPlain_of_refFormat (hFormat : RefFormat name) : SlashesPlain name where
  doubled := by
    rintro ⟨front, rest, rfl⟩
    refine (hFormat.components [] (Path.mem_segments_iff.mpr ⟨by simp, ?_⟩)).1 rfl
    exact ⟨front ++ ['/'], '/' :: rest, by simp, .inr ⟨front, rfl⟩, .inr ⟨rest, rfl⟩⟩
  trailing := by
    rintro ⟨front, rfl⟩
    refine (hFormat.components [] (Path.mem_segments_iff.mpr ⟨by simp, ?_⟩)).1 rfl
    exact ⟨front ++ ['/'], [], by simp, .inr ⟨front, rfl⟩, .inl rfl⟩
  dotted := by
    rintro ⟨front, rest, rfl⟩
    obtain ⟨part, after, rfl, hPart, hAfter⟩ := Path.exists_first_segment rest
    refine (hFormat.components ('.' :: part) (Path.mem_segments_iff.mpr ⟨?_, ?_⟩)).2.1 ⟨part, rfl⟩
    · simpa using hPart
    · exact ⟨front ++ ['/'], after, by simp, .inr ⟨front, rfl⟩, hAfter⟩
  locked := by
    rintro ⟨front, rest, rfl⟩
    obtain ⟨hFront, hFile, hDir⟩ := Path.splitFile_spec front
    refine (hFormat.components ((Path.splitFile front).2 ++ (".lock" : Text))
      (Path.mem_segments_iff.mpr ⟨?_, ?_⟩)).2.2 ⟨_, rfl⟩
    · simpa using hFile
    · refine ⟨(Path.splitFile front).1, '/' :: rest, ?_, hDir, .inr ⟨rest, rfl⟩⟩
      nth_rewrite 1 [hFront]
      simp
  notHead := hFormat.notHead

end Components

/- The checks leave open exactly what stands next to a slash, and the name `HEAD`. -/
theorem refFormat_iff {ref : Text} (hOk : validateGitRef ref = .ok ()) :
    RefFormat (Text.trimSpace ref) ↔ SlashesPlain (Text.trimSpace ref) := by
  unfold validateGitRef at hOk
  dsimp only at hOk
  generalize Text.trimSpace ref = name at hOk ⊢
  split_ifs at hOk with hNe hDash hDots hDot hEnd hAt hShort hSafe
  simp only [List.isPrefixOf_iff_prefix, List.isSuffixOf_iff_suffix, Text.contains_iff_isInfix,
    not_or] at hDash hDots hDot hEnd hAt
  simp only [safeGitRefPattern, Bool.not_eq_true', Bool.not_eq_false, Bool.and_eq_true,
    List.all_eq_true] at hSafe
  have hSlash : name.head? ≠ some '/' := by
    intro hHead
    rw [hHead] at hSafe
    exact absurd hSafe.1 (by decide)
  refine ⟨slashesPlain_of_refFormat, fun hPlain => ?_⟩
  exact
    { components := fun part hPart => plain_component hNe hSlash hDot hEnd.2 hPlain hPart
      dots := hDots.2.2
      ending := hEnd.1
      runes := fun c hC => plain_of_isRefRune (hSafe.2 c hC)
      brace := hAt.2
      notAt := hAt.1
      dash := hDash
      notHead := hPlain.notHead }

theorem release_branch_is_ref : validateGitRef " release/1.2" = .ok () ∧
    RefFormat (Text.trimSpace " release/1.2") := by
  have hOk : validateGitRef " release/1.2" = .ok () := by decide +kernel
  refine ⟨hOk, (refFormat_iff hOk).mpr ⟨?_, ?_, ?_, ?_, ?_⟩⟩ <;> decide +kernel

/- Names whose components Git refuses, and the name of no branch. -/
theorem doubled_slash_is_accepted : validateGitRef "a//b" = .ok () ∧ ¬ RefFormat "a//b" ∧
      validateGitRef "HEAD" = .ok () ∧ ¬ RefFormat "HEAD" := by
  refine ⟨by decide +kernel, fun hFormat => ?_, by decide +kernel, fun hFormat => ?_⟩
  · exact (hFormat.components [] (by decide)).1 rfl
  · exact hFormat.notHead rfl

end Validation
end Kollect
