import Mathlib.Data.List.TakeWhile
import Kollect.Collect.Prune
import Kollect.Validation.Profile

/-
  What the paths of a prune block take out.

  A JSONPath is read as a list of keys, a pointer as a list of tokens. Both are compared with what
  an author means: the entry under the keys, and the node that RFC 6901 says a pointer addresses.
  The walk over the tokens takes for an index of a list what `strconv.Atoi` takes for a number.

  Key theorems include:
    * `removeByTokens_addressed_iff`
    * `prunesEntry_iff`
    * `removes_addressed_iff`
-/

namespace Kollect
namespace Collect

----
-- Keys In Brackets
----

def bracket (key : Text) : Text := ("['" : Text) ++ key ++ ("']" : Text)

/- A path of keys, each in brackets and single quotes. -/
def bracketPath (keys : List Text) : Text := '$' :: keys.flatMap bracket

variable {tokens : List Text}

theorem prefix_jsonPathTokensFrom {fuel : Nat} {path : Text} {out : List Text}
    (hOut : jsonPathTokensFrom fuel path tokens = some out) : tokens <+: out := by
  fun_induction jsonPathTokensFrom fuel path tokens with
  | case1 path tokens =>
    cases hOut
    exact List.prefix_rfl
  | case2 fuel tokens =>
    cases hOut
    exact List.prefix_rfl
  | case3 tokens fuel path ih => exact ih hOut
  | case4 => cases hOut
  | case5 tokens fuel path hClosed inner hInner ih => exact (List.prefix_append _ _).trans (ih hOut)
  | case6 => cases hOut
  | case7 => cases hOut
  | case8 tokens fuel path _ _ _ word seg hSeg ih =>
    refine List.IsPrefix.trans ?_ (ih hOut)
    split_ifs
    · exact List.prefix_rfl
    · exact List.prefix_append _ _

theorem head?_trimFunc {p : Char → Bool} {c : Char} (hC : p c = false) (s : Text) :
    (Text.trimFunc p (c :: s)).head? = some c := by
  have hFront := Text.trimFunc_isPrefix p (c :: s)
  rw [List.dropWhile_cons_of_neg (by simp [hC])] at hFront
  cases hTrim : Text.trimFunc p (c :: s) with
  | nil =>
    unfold Text.trimFunc at hTrim
    rw [List.dropWhile_cons_of_neg (by simp [hC]), List.reverse_eq_nil_iff,
      List.dropWhile_eq_nil_iff] at hTrim
    rw [hTrim c (by simp)] at hC
    cases hC
  | cons d rest =>
    rw [hTrim, List.cons_prefix_cons] at hFront
    rw [hFront.1]
    rfl

/- The single quote. -/
def mark : Char := Char.ofNat 39

/- What a bracket is read as, whatever it holds. -/
theorem jsonPathTokensFrom_bracket (fuel : Nat) (key rest : Text) (tokens : List Text) :
    jsonPathTokensFrom (fuel + 1) (bracket key ++ rest) tokens = jsonPathTokensFrom fuel
        (((key ++ mark :: ']' :: rest).dropWhile fun c => c ≠ ']').drop 1)
        (tokens ++ [Text.trimFunc isQuoteMark (Text.trimSpace
          (mark :: (key ++ mark :: ']' :: rest).takeWhile fun c => c ≠ ']'))]) := by
  have hPath : bracket key ++ rest = '[' :: mark :: (key ++ mark :: ']' :: rest) := by
    simp [bracket, mark]
  have hHead := head?_trimFunc (p := Text.isSpace) (c := mark) (by decide)
    ((key ++ mark :: ']' :: rest).takeWhile fun c => c ≠ ']')
  rw [hPath, jsonPathTokensFrom, if_pos (by simp)]
  rw [List.takeWhile_cons_of_pos (by decide), List.dropWhile_cons_of_pos (by decide), if_neg]
  rintro (hStar | hFilter)
  · rw [Text.trimSpace] at hStar
    rw [hStar] at hHead
    exact absurd (Option.some.inj hHead) (by decide)
  · rw [Text.trimSpace, hHead] at hFilter
    exact absurd (Option.some.inj hFilter) (by decide)

/- Without a bracket of its own, the key is what is quoted. -/
theorem jsonPathTokensFrom_key {key : Text} (hKey : ']' ∉ key) (fuel : Nat) (rest : Text)
    (tokens : List Text) :
    jsonPathTokensFrom (fuel + 1) (bracket key ++ rest) tokens = jsonPathTokensFrom fuel rest
        (tokens ++ [Text.trimFunc isQuoteMark (mark :: key ++ [mark])]) := by
  have hPlain : ∀ c ∈ key ++ [mark], decide (c ≠ ']') = true := by
    intro c hC
    rcases List.mem_append.mp hC with hOld | hMark
    · exact decide_eq_true (fun hEq => hKey (hEq ▸ hOld))
    · rw [List.mem_singleton.mp hMark]
      decide
  have hSplit : key ++ mark :: ']' :: rest = (key ++ [mark]) ++ ']' :: rest := by simp
  have hTrim : Text.trimSpace (mark :: (key ++ [mark])) = mark :: (key ++ [mark]) := by
    apply Text.trimFunc_eq_self_of_ends
    · intro c hC
      cases hC
      decide
    · intro c hC
      rw [← List.cons_append, List.getLast?_append] at hC
      cases hC
      decide
  rw [jsonPathTokensFrom_bracket, hSplit,
    List.takeWhile_append_of_pos hPlain, List.dropWhile_append_of_pos hPlain,
    List.takeWhile_cons_of_neg (by decide),
    List.dropWhile_cons_of_neg (by decide), List.append_nil, hTrim]
  rfl

/- The characters a key in brackets loses, or ends at. -/
def Quotable (key : Text) : Prop := ']' ∉ key ∧ key.head? ≠ some '"' ∧ key.getLast? ≠ some '"'

instance (key : Text) : Decidable (Quotable key) := inferInstanceAs (Decidable (_ ∧ _))

theorem trimQuotes_eq_self {key : Text} (hNe : key ≠ []) (hMark : mark ∉ key) :
    Text.trimFunc isQuoteMark (mark :: key ++ [mark]) = key ↔
      key.head? ≠ some '"' ∧ key.getLast? ≠ some '"' := by
  constructor
  · intro hEq
    have hEnds := Text.trimFunc_ends isQuoteMark (mark :: key ++ [mark])
    rw [hEq] at hEnds
    exact ⟨fun hHead => absurd (hEnds.1 _ hHead) (by decide),
      fun hLast => absurd (hEnds.2 _ hLast) (by decide)⟩
  · rintro ⟨hHead, hLast⟩
    have hKeep : ∀ c ∈ key, c ≠ '"' → isQuoteMark c = false := by
      intro c hC hQuote
      have hNotMark : c ≠ mark := fun hEq => hMark (hEq ▸ hC)
      simpa [isQuoteMark, hQuote] using fun hCode : c.toNat = 39 =>
        hNotMark (Char.ext (UInt32.toNat_inj.mp hCode))
    have hDrop : ∀ t rest : Text, t ≠ [] → (∀ c ∈ t, c ∈ key) →
        t.head? ≠ some '"' → (mark :: t ++ rest).dropWhile isQuoteMark = t ++ rest := by
      intro t rest hT hSub hFirst
      cases t with
      | nil => exact absurd rfl hT
      | cons c t =>
        rw [List.cons_append, List.dropWhile_cons_of_pos (by decide),
          List.cons_append, List.dropWhile_cons_of_neg]
        rw [hKeep c (hSub c List.mem_cons_self) (fun hEq => hFirst (by rw [hEq]; rfl))]
        decide
    unfold Text.trimFunc
    rw [hDrop key [mark] hNe (fun _ hC => hC) hHead, List.reverse_append]
    have hBack := hDrop key.reverse [] (by simpa using hNe)
      (fun _ hC => List.mem_reverse.mp hC) (by rwa [List.head?_reverse])
    rw [List.append_nil, List.append_nil] at hBack
    rw [List.reverse_singleton, List.singleton_append, hBack, List.reverse_reverse]

theorem jsonPathTokensFrom_brackets_iff {keys : List Text}
    (hKeys : ∀ key ∈ keys, key ≠ [] ∧ mark ∉ key)
    {fuel : Nat} (hFuel : keys.length ≤ fuel) (tokens : List Text) :
    jsonPathTokensFrom fuel (keys.flatMap bracket) tokens = some (tokens ++ keys) ↔
      ∀ key ∈ keys, Quotable key := by
  induction keys generalizing fuel tokens with
  | nil => cases fuel <;> simp [jsonPathTokensFrom]
  | cons key keys ih =>
    rw [List.forall_mem_cons] at hKeys ⊢
    rcases hKeys with ⟨⟨hNe, hMark⟩, hRest⟩
    obtain ⟨fuel, rfl⟩ : ∃ n, fuel = n + 1 := ⟨fuel - 1, by rw [List.length_cons] at hFuel; omega⟩
    rw [List.length_cons, Nat.add_le_add_iff_right] at hFuel
    rw [List.flatMap_cons]
    by_cases hBracket : ']' ∈ key
    · -- the token ends at the first bracket, and the key does not
      rw [jsonPathTokensFrom_bracket]
      refine iff_of_false ?_ (fun hAll => hAll.1.1 hBracket)
      intro hOut
      have hFront := prefix_jsonPathTokensFrom hOut
      rw [List.prefix_append_right_inj, List.cons_prefix_cons] at hFront
      rw [← hFront.1] at hBracket
      have hMem := Text.mem_of_mem_trimFunc (Text.mem_of_mem_trimFunc hBracket)
      rcases List.mem_cons.mp hMem with hEq | hTaken
      · exact absurd hEq (by decide)
      · exact absurd (List.mem_takeWhile_imp hTaken) (by decide)
    · have hStep := ih hRest hFuel (tokens ++ [key])
      rw [← List.append_cons] at hStep
      rw [jsonPathTokensFrom_key hBracket]
      constructor
      · intro hOut
        have hFront := prefix_jsonPathTokensFrom hOut
        rw [List.prefix_append_right_inj, List.cons_prefix_cons] at hFront
        rw [hFront.1] at hOut
        exact ⟨⟨hBracket, (trimQuotes_eq_self hNe hMark).mp hFront.1⟩, hStep.mp hOut⟩
      · rintro ⟨hKey, hAll⟩
        rw [(trimQuotes_eq_self hNe hMark).mpr hKey.2]
        exact hStep.mpr hAll

/- The keys are read back exactly if each of them can be quoted. -/
theorem jsonPathTokens_bracketPath_iff {keys : List Text} (hNonempty : keys ≠ [])
    (hKeys : ∀ key ∈ keys, key ≠ [] ∧ mark ∉ key) :
    jsonPathTokens (bracketPath keys) = some keys ↔ ∀ key ∈ keys, Quotable key := by
  have hTrim : Text.trimSpace (bracketPath keys) = bracketPath keys := by
    apply Text.trimFunc_eq_self_of_ends
    · intro c hC
      cases hC
      decide
    · intro c hC
      rcases List.eq_nil_or_concat keys with hNil | ⟨front, key, hConcat⟩
      · exact absurd hNil hNonempty
      · rw [hConcat, bracketPath, List.concat_eq_append, List.flatMap_append,
          List.flatMap_singleton, bracket, ← List.append_assoc,
          ← List.cons_append, List.getLast?_append] at hC
        cases hC
        decide
  have hTokens : jsonPathTokens (bracketPath keys) =
      jsonPathTokensFrom (keys.flatMap bracket).length (keys.flatMap bracket) [] := by
    unfold jsonPathTokens
    rw [hTrim]
    rfl
  have hFuel : keys.length ≤ (keys.flatMap bracket).length := by
    clear hNonempty hKeys hTrim hTokens
    induction keys with
    | nil => exact Nat.le_refl 0
    | cons key keys ih =>
      rw [List.flatMap_cons, List.length_append, List.length_cons]
      have hOne : 1 ≤ (bracket key).length := by simp [bracket]
      omega
  rw [hTokens]
  exact jsonPathTokensFrom_brackets_iff hKeys hFuel []

----
-- The Walk Over The Tokens
----

/- How the walk reads a token: as a key, or as an index if `strconv.Atoi` gives one. -/
def Reads (token : Text) : GoValue.Step → Prop
  | .key key => token = key
  | .index i => atoi? token = some (i : Int)

/- Where the tokens lead to, as the walk reads them. -/
def locate : List Text → Json → Option (List GoValue.Step)
  | [], _ => some []
  | token :: tokens, .obj fields =>
    (fields.lookup token).bind fun value => (locate tokens value).map (.key token :: ·)
  | token :: tokens, .arr xs =>
    (sliceIndex? token xs.length).bind fun i =>
      xs[i]?.bind fun value => (locate tokens value).map (.index i :: ·)
  | _ :: _, _ => none

theorem sliceIndex?_eq_some_iff {token : Text} {length i : Nat} :
    sliceIndex? token length = some i ↔ atoi? token = some (i : Int) ∧ i < length := by
  unfold sliceIndex?
  split
  · rename_i hNone
    simp [hNone]
  · rename_i idx hIdx
    rw [hIdx]
    split_ifs with hRange
    · simp only [Option.some.injEq, false_iff, not_and]
      omega
    · simp only [Option.some.injEq]
      omega

theorem reads_of_locate {tokens : List Text} {doc : Json} {place : List GoValue.Step}
    (hPlace : locate tokens doc = some place) :
    List.Forall₂ Reads tokens place ∧ (Json.node? place doc).isSome = true := by
  induction tokens generalizing doc place with
  | nil =>
    cases hPlace
    exact ⟨.nil, rfl⟩
  | cons token tokens ih =>
    cases doc with
    | obj fields =>
      obtain ⟨value, hValue, hRest⟩ := Option.bind_eq_some_iff.mp hPlace
      obtain ⟨rest, hBelow, rfl⟩ := Option.map_eq_some_iff.mp hRest
      obtain ⟨hReads, hNode⟩ := ih hBelow
      exact ⟨.cons rfl hReads, by rw [Json.node?, hValue]; exact hNode⟩
    | arr xs =>
      obtain ⟨i, hIndex, hElement⟩ := Option.bind_eq_some_iff.mp hPlace
      obtain ⟨value, hValue, hRest⟩ := Option.bind_eq_some_iff.mp hElement
      obtain ⟨rest, hBelow, rfl⟩ := Option.map_eq_some_iff.mp hRest
      obtain ⟨hReads, hNode⟩ := ih hBelow
      refine ⟨.cons (sliceIndex?_eq_some_iff.mp hIndex).1 hReads, ?_⟩
      rw [Json.node?, hValue]
      exact hNode
    | _ => cases hPlace

theorem locate_of_reads {tokens : List Text} {place : List GoValue.Step}
    (hReads : List.Forall₂ Reads tokens place) {doc : Json}
    (hNode : (Json.node? place doc).isSome = true) : locate tokens doc = some place := by
  induction hReads generalizing doc with
  | nil => rfl
  | @cons token step tokens place hRead _ ih =>
    cases step with
    | key key =>
      obtain rfl : token = key := hRead
      cases doc with
      | obj fields =>
        cases hValue : fields.lookup token with
        | none => simp [Json.node?, hValue] at hNode
        | some value =>
          rw [Json.node?, hValue] at hNode
          simp [locate, hValue, ih hNode]
      | _ => cases hNode
    | index i =>
      cases doc with
      | arr xs =>
        cases hValue : xs[i]? with
        | none => simp [Json.node?, hValue] at hNode
        | some value =>
          have hIndex : sliceIndex? token xs.length = some i :=
            sliceIndex?_eq_some_iff.mpr ⟨hRead, (List.getElem?_eq_some_iff.mp hValue).1⟩
          rw [Json.node?, hValue] at hNode
          simp [locate, hIndex, hValue, ih hNode]
      | _ => cases hNode

/- The walk takes out the node it comes to, and without one nothing. -/
theorem removeByTokens_eq (tokens : List Text) (doc : Json) :
    removeByTokens tokens doc = (locate tokens doc).elim doc (Json.removeAt · doc) := by
  induction tokens generalizing doc with
  | nil => cases doc <;> rfl
  | cons token tokens ih =>
    have hEnd : ∀ {value place}, locate tokens value = some place → (tokens = [] ↔ place = []) := by
      intro value place hPlace
      have hLength := (reads_of_locate hPlace).1.length_eq
      rw [← List.length_eq_zero_iff, hLength, List.length_eq_zero_iff]
    cases doc with
    | obj fields =>
      rw [removeByTokens, locate]
      cases hValue : fields.lookup token with
      | none =>
        split_ifs
        · rw [Json.filter_eq_self_iff.mpr hValue]
          rfl
        · rw [Json.editMember_eq_self_iff.mpr (by simp [hValue])]
          rfl
      | some value =>
        have hBelow := ih value
        cases hPlace : locate tokens value with
        | none =>
          rw [hPlace] at hBelow
          rw [if_neg (by rintro rfl; cases hPlace),
            Json.editMember_eq_self_iff.mpr (by simpa [hValue] using hBelow)]
          simp [hPlace]
        | some place =>
          rw [hPlace] at hBelow
          simp only [Option.bind_some, hPlace, Option.map_some, Option.elim_some, Json.removeAt,
            hEnd hPlace]
          split_ifs
          · rfl
          · rw [Json.editMember_inj.mpr]
            intro value' hSome
            rw [hValue] at hSome
            cases hSome
            exact hBelow
    | arr xs =>
      rw [removeByTokens, locate]
      cases hIndex : sliceIndex? token xs.length with
      | none => rfl
      | some i =>
        have hLt := (sliceIndex?_eq_some_iff.mp hIndex).2
        have hValue : xs[i]? = some xs[i] := List.getElem?_eq_getElem hLt
        have hBelow := ih xs[i]
        cases hPlace : locate tokens xs[i] with
        | none =>
          rw [hPlace] at hBelow
          simp only [if_neg (show tokens ≠ [] by rintro rfl; cases hPlace)]
          rw [Json.modify_eq_self_iff.mpr (by simpa [hValue] using hBelow)]
          simp [hValue, hPlace]
        | some place =>
          rw [hPlace] at hBelow
          simp only [Option.bind_some, hValue, hPlace, Option.map_some, Option.elim_some,
            Json.removeAt, hEnd hPlace]
          split_ifs
          · rfl
          · rw [Json.modify_inj.mpr]
            intro value' hSome
            rw [hValue] at hSome
            cases hSome
            exact hBelow
    | _ => rfl

/-
  The walk takes out what the tokens name, and nothing else, exactly if no node is reached by a
  token that does not name its step. A null in a list is the exception: taking it out is no change.
-/
theorem removeByTokens_addressed_iff (Names : Text → GoValue.Step → Prop)
    (hNames : ∀ token step, Names token step → Reads token step)
    {tokens : List Text} (hTokens : tokens ≠ []) (doc : Json) :
    ((∀ place, List.Forall₂ Names tokens place → (Json.node? place doc).isSome = true →
        removeByTokens tokens doc = Json.removeAt place doc) ∧
      ((∀ place, List.Forall₂ Names tokens place → Json.node? place doc = none) →
        removeByTokens tokens doc = doc)) ↔
      ∀ place, List.Forall₂ Reads tokens place → (Json.node? place doc).isSome = true →
        List.Forall₂ Names tokens place ∨ Json.NullElement place doc := by
  rw [removeByTokens_eq]
  have hOnly : ∀ {place place'}, locate tokens doc = some place →
      List.Forall₂ Names tokens place' → (Json.node? place' doc).isSome = true →
        place' = place := by
    intro place place' hPlace hNamed hNode
    rw [locate_of_reads (hNamed.imp hNames) hNode] at hPlace
    exact Option.some.inj hPlace
  constructor
  · rintro ⟨-, hKept⟩ place hReads hNode
    have hPlace := locate_of_reads hReads hNode
    by_contra hNeither
    rw [not_or] at hNeither
    have hSame := hKept fun place' hNamed => by
      by_contra hSome
      have hNode' := Option.ne_none_iff_isSome.mp hSome
      exact hNeither.1 (hOnly hPlace hNamed hNode' ▸ hNamed)
    rw [hPlace] at hSame
    refine hNeither.2 ((Json.removeAt_eq_self_iff ?_ hNode).mp hSame)
    rintro rfl
    cases hReads
    exact hTokens rfl
  · intro hStrict
    cases hPlace : locate tokens doc with
    | none =>
      refine ⟨fun place hNamed hNode => ?_, fun _ => rfl⟩
      rw [locate_of_reads (hNamed.imp hNames) hNode] at hPlace
      cases hPlace
    | some place =>
      have hReads := reads_of_locate hPlace
      refine ⟨fun place' hNamed hNode => by rw [hOnly hPlace hNamed hNode]; rfl, fun hNone => ?_⟩
      rcases hStrict place hReads.1 hReads.2 with hNamed | hNull
      · rw [hNone place hNamed] at hReads
        cases hReads.2
      · refine (Json.removeAt_eq_self_iff ?_ hReads.2).mpr hNull
        rintro rfl
        exact hTokens (List.forall₂_nil_right_iff.mp hReads.1)

----
-- Entries Under Keys
----

/- The path is read as the keys, and takes out the entry under them. -/
def PrunesEntry (keys : List Text) (root : Json) : Prop :=
  jsonPathTokens (bracketPath keys) = some keys ∧
    removeJSONPath root (bracketPath keys) = Json.removeAt (keys.map .key) root

/- Where the walk comes to a node, it has passed no list, or the node is a null in one. -/
def ReadAsKeys (keys : List Text) (root : Json) : Prop :=
  ∀ place, List.Forall₂ Reads keys place → (Json.node? place root).isSome = true →
    place = keys.map .key ∨ Json.NullElement place root

/-
  The entry under the keys is taken out exactly if no key holds a closing bracket or has a double
  quote at an end, and none of them is taken for the index of a list.
-/
theorem prunesEntry_iff {keys : List Text} (hNonempty : keys ≠ [])
    (hKeys : ∀ key ∈ keys, key ≠ [] ∧ mark ∉ key) (root : Json) :
    PrunesEntry keys root ↔ (∀ key ∈ keys, Quotable key) ∧ ReadAsKeys keys root := by
  have hKeyed : ∀ place, List.Forall₂ (fun token step => GoValue.Step.key token = step) keys place ↔
      place = keys.map .key := by
    intro place
    rw [← List.forall₂_map_left_iff, List.forall₂_eq_eq_eq, eq_comm]
  have hWalk := removeByTokens_addressed_iff (fun token step => .key token = step)
    (by rintro token _ rfl; rfl) hNonempty root
  simp only [hKeyed, forall_eq] at hWalk
  unfold PrunesEntry
  rw [← jsonPathTokens_bracketPath_iff hNonempty hKeys]
  refine and_congr_right fun hRead => ?_
  rw [removeJSONPath, hRead, ReadAsKeys, ← hWalk]
  dsimp only
  constructor
  · intro hEntry
    exact ⟨fun _ => hEntry, fun hNone => hEntry.trans (Json.removeAt_of_missing hNone)⟩
  · rintro ⟨hRemoved, hKept⟩
    cases hNode : Json.node? (keys.map .key) root with
    | none => rw [hKept hNode, Json.removeAt_of_missing hNode]
    | some node => exact hRemoved (by rw [hNode]; rfl)

def annotated : Json := .obj [("metadata", .obj [("a.b/c", .int 1), ("name", .null)])]

/- A key with a dot and a slash is read as it is. -/
theorem dotted_key_is_read : PrunesEntry [("metadata" : Text), "a.b/c"] annotated := by
  refine (prunesEntry_iff (by decide) (by decide) _).mpr ⟨by decide, fun place hReads hNode => ?_⟩
  have hPlace : locate [("metadata" : Text), "a.b/c"] annotated =
      some [.key "metadata", .key "a.b/c"] := by decide +kernel
  rw [locate_of_reads hReads hNode] at hPlace
  exact .inl (Option.some.inj hPlace)

/-
  A key in double quotes loses them: the path takes out what another key names. One with a bracket
  is read as two keys, and a numeral as an index.
-/
theorem quoted_key_is_lost :
    removeJSONPath (.obj [("\"a\"", .int 1), ("a", .int 2)]) (bracketPath [("\"a\"" : Text)]) =
      .obj [("\"a\"", .int 1)] ∧
    jsonPathTokens (bracketPath [("a]b" : Text)]) = some [("a" : Text), "b']"] ∧
    removeJSONPath (.obj [("ports", .arr [.int 80, .int 443])])
      (bracketPath [("ports" : Text), "0"]) = .obj [("ports", .arr [.null, .int 443])] := by
  decide +kernel

----
-- Addressed Nodes
----

theorem atoi?_toDigits (i : Nat) : atoi? (Nat.toDigits 10 i) = some (i : Int) := by
  have hDigit : ∀ c ∈ Nat.toDigits 10 i, c.isDigit = true := fun c hC =>
    Nat.isDigit_of_mem_toDigits (by decide) (by decide) hC
  have hNumber : Nat.ofDigitChars 10 (Nat.toDigits 10 i) 0 = i := Nat.ofDigitChars_ten_toDigits
  have hNe : Nat.toDigits 10 i ≠ [] := Nat.toDigits_ne_nil
  generalize Nat.toDigits 10 i = digits at hDigit hNumber hNe
  unfold atoi?
  dsimp only
  split
  · exact absurd (hDigit '-' List.mem_cons_self) (by decide)
  · exact absurd (hDigit '+' List.mem_cons_self) (by decide)
  · rw [if_pos ⟨hNe, List.all_eq_true.mpr hDigit⟩]
    exact congrArg (some ∘ Int.ofNat) hNumber

theorem reads_stepToken (step : GoValue.Step) : Reads (Json.stepToken step) step := by
  cases step with
  | key key => rfl
  | index i => exact atoi?_toDigits i

/- Unescaping in two steps gives back what RFC 6901 escapes. -/
theorem unescape_escapeToken (token : Text) :
    unescapeJSONPointerToken (Json.escapeToken token) = token := by
  have hSlashes : Text.replaceAll [(("~1" : Text), ("/" : Text))] (Json.escapeToken token) =
      token.flatMap fun c => if c = '~' then ['~', '0'] else [c] := by
    change Text.replaceFrom [(['~', '1'], ['/'])] 0 _ = _
    induction token with
    | nil => rfl
    | cons c token ih =>
      rw [Json.escapeToken, List.flatMap_cons, List.flatMap_cons]
      rw [Json.escapeToken] at ih
      split_ifs with hTilde hSlash
      · simp [Text.replaceFrom, ih]
      · simp [Text.replaceFrom, ih, hSlash]
      · simp [Text.replaceFrom, ih, Ne.symm hTilde]
  unfold unescapeJSONPointerToken
  rw [hSlashes]
  change Text.replaceFrom [(['~', '0'], ['~'])] 0 _ = _
  clear hSlashes
  induction token with
  | nil => rfl
  | cons c token ih =>
    rw [List.flatMap_cons]
    split_ifs with hTilde
    · simp [Text.replaceFrom, ih, hTilde]
    · simp [Text.replaceFrom, ih, Ne.symm hTilde]

theorem pointerText_inj {tokens tokens' : List Text}
    (hText : Json.pointerText tokens = Json.pointerText tokens') : tokens = tokens' := by
  have hEscape : Function.Injective Json.escapeToken :=
    Function.LeftInverse.injective unescape_escapeToken
  cases tokens with
  | nil =>
    cases tokens' with
    | nil => rfl
    | cons token' tokens' => cases hText
  | cons token tokens =>
    cases tokens' with
    | nil => cases hText
    | cons token' tokens' =>
      have hRest : Json.escapeToken token ++ Json.pointerText tokens =
          Json.escapeToken token' ++ Json.pointerText tokens' := (List.cons.inj hText).2
      have hSegments := congrArg Path.segments hRest
      rw [Json.segments_pointerText, Json.segments_pointerText] at hSegments
      exact List.map_injective_iff.mpr hEscape hSegments

/- What is escaped as it should be is the pointer of some tokens. -/
theorem exists_pointerText {rest : Text} (hEscapes : Validation.pointerEscapes rest = true) :
    ∃ token tokens, rest = Json.escapeToken token ++ Json.pointerText tokens := by
  fun_induction Validation.pointerEscapes rest with
  | case1 => exact ⟨[], [], rfl⟩
  | case2 rest ih =>
    obtain ⟨token, tokens, rfl⟩ := ih hEscapes
    exact ⟨'~' :: token, tokens, rfl⟩
  | case3 rest ih =>
    obtain ⟨token, tokens, rfl⟩ := ih hEscapes
    exact ⟨'/' :: token, tokens, rfl⟩
  | case4 => cases hEscapes
  | case5 c rest hPlain _ hTilde ih =>
    obtain ⟨token, tokens, rfl⟩ := ih hEscapes
    by_cases hSlash : c = '/'
    · exact ⟨[], token :: tokens, by rw [hSlash]; rfl⟩
    · refine ⟨c :: token, tokens, ?_⟩
      have hEscape : Json.escapeToken (c :: token) = c :: Json.escapeToken token := by
        rw [Json.escapeToken, List.flatMap_cons, if_neg hTilde, if_neg hSlash]
        rfl
      rw [hEscape]
      rfl

theorem addresses_pointerText_iff {tokens : List Text} {doc : Json} {place : List GoValue.Step} :
    Json.Addresses (Json.pointerText tokens) doc place ↔
      List.Forall₂ (fun token step => token = Json.stepToken step) tokens place ∧
        (Json.node? place doc).isSome = true := by
  rw [Json.Addresses, ← List.forall₂_map_right_iff, List.forall₂_eq_eq_eq]
  exact and_congr_left' ⟨pointerText_inj, congrArg _⟩

/-
  The pointer takes out the node it addresses, an entry of a map or a list's element, which becomes
  null. A pointer without such a node takes nothing out.
-/
structure RemovesAddressed (pointer : Text) (doc : Json) : Prop where
  removed : ∀ place, Json.Addresses pointer doc place →
    removeJSONPointer doc pointer = Json.removeAt place doc
  kept : (∀ place, ¬ Json.Addresses pointer doc place) → removeJSONPointer doc pointer = doc

/-
  Where the walk comes to a node, the tokens of the pointer are those of the place, or the node is a
  null in a list.
-/
def ReadStrictly (pointer : Text) (doc : Json) : Prop :=
  ∀ tokens place, pointer = Json.pointerText tokens → List.Forall₂ Reads tokens place →
    (Json.node? place doc).isSome = true →
      tokens = place.map Json.stepToken ∨ Json.NullElement place doc

theorem readStrictly_of_locate {doc : Json} {place : List GoValue.Step}
    (hPlace : locate tokens doc = some place) (hTokens : tokens = place.map Json.stepToken) :
    ReadStrictly (Json.pointerText tokens) doc := by
  intro tokens' place' hPointer hReads hNode
  obtain rfl := pointerText_inj hPointer
  obtain rfl := Option.some.inj (hPlace.symm.trans (locate_of_reads hReads hNode))
  exact .inl hTokens

/- The one pointer that is not walked along. -/
theorem removesAddressed_slash_iff (fields : List (Text × Json)) :
    RemovesAddressed ['/'] (.obj fields) ↔ fields.lookup [] = none := by
  have hAt : ∀ place, Json.Addresses ['/'] (.obj fields) place ↔
      place = [.key []] ∧ (fields.lookup []).isSome = true := by
    intro place
    rw [show ['/'] = Json.pointerText [[]] from rfl, addresses_pointerText_iff]
    constructor
    · rintro ⟨_ | ⟨hStep, _ | _⟩, hNode⟩
      rename_i step
      cases step with
      | key key =>
        obtain rfl : [] = key := hStep
        exact ⟨rfl, Option.isSome_of_isSome_bind hNode⟩
      | index i => exact absurd hStep.symm Nat.toDigits_ne_nil
    · rintro ⟨rfl, hSome⟩
      obtain ⟨value, hValue⟩ := Option.isSome_iff_exists.mp hSome
      exact ⟨.cons rfl .nil, by simp [Json.node?, hValue]⟩
  have hSame : removeJSONPointer (.obj fields) ['/'] = .obj fields := rfl
  constructor
  · intro hRemoves
    by_contra hSome
    have hAddressed := (hAt _).mpr ⟨rfl, Option.ne_none_iff_isSome.mp hSome⟩
    have hGone := (hRemoves.removed _ hAddressed).symm.trans hSame
    obtain ⟨⟨i, hIndex⟩, -⟩ := (Json.removeAt_eq_self_iff (by simp) hAddressed.2).mp hGone
    cases hIndex
  · intro hNone
    refine ⟨fun place hPlace => ?_, fun _ => hSame⟩
    have hSome := ((hAt place).mp hPlace).2
    rw [hNone] at hSome
    cases hSome

theorem exists_pointerText_of_valid {pointer : Text}
    (hValid : Validation.validateRFC6901Pointer pointer = none)
    (hTrimmed : Text.trimSpace pointer = pointer) :
    ∃ token tokens, pointer = Json.pointerText (token :: tokens) := by
  unfold Validation.validateRFC6901Pointer at hValid
  rw [hTrimmed] at hValid
  split at hValid
  · cases hValid
  · split_ifs at hValid with hEscapes
    obtain ⟨token, tokens, rfl⟩ := exists_pointerText hEscapes
    exact ⟨token, tokens, rfl⟩
  · cases hValid

theorem readStrictly_pointerText_iff {doc : Json} : ReadStrictly (Json.pointerText tokens) doc ↔
    ∀ place, List.Forall₂ Reads tokens place → (Json.node? place doc).isSome = true →
      List.Forall₂ (fun token step => token = Json.stepToken step) tokens place ∨
        Json.NullElement place doc := by
  simp only [← List.forall₂_map_right_iff, List.forall₂_eq_eq_eq]
  constructor
  · intro hRead place
    exact hRead _ place rfl
  · intro hRead tokens' place hPointer
    rw [← pointerText_inj hPointer]
    exact hRead place

theorem removeJSONPointer_pointerText {token : Text} {doc : Json}
    (hTrimmed : Text.trimSpace (Json.pointerText (token :: tokens)) =
      Json.pointerText (token :: tokens)) (hSlash : Json.pointerText (token :: tokens) ≠ ['/']) :
    removeJSONPointer doc (Json.pointerText (token :: tokens)) =
      removeByTokens (token :: tokens) doc := by
  unfold removeJSONPointer
  rw [hTrimmed]
  split
  · exact absurd ‹_› hSlash
  · rename_i hRest
    have hText := (List.cons.inj hRest).2
    change Json.escapeToken token ++ Json.pointerText tokens = _ at hText
    have hSegments := Json.segments_pointerText token tokens
    rw [hText, Path.segments] at hSegments
    rw [hSegments, List.map_map]
    simp [Function.comp_def, unescape_escapeToken]
  · rename_i hOther
    exact absurd rfl (hOther _)

/-
  An accepted pointer takes out the node it addresses, unless it names the empty key of the root, or
  a list is given a token that only `strconv.Atoi` takes for an index.
-/
theorem removes_addressed_iff
    {pointer : Text} (hValid : Validation.validateRFC6901Pointer pointer = none)
    (hTrimmed : Text.trimSpace pointer = pointer) (fields : List (Text × Json)) :
    RemovesAddressed pointer (.obj fields) ↔
      (pointer = ['/'] → fields.lookup [] = none) ∧ ReadStrictly pointer (.obj fields) := by
  obtain ⟨token, tokens, rfl⟩ := exists_pointerText_of_valid hValid hTrimmed
  by_cases hSlash : Json.pointerText (token :: tokens) = ['/']
  · have hEmpty : Json.pointerText (token :: tokens) = Json.pointerText [[]] := hSlash
    obtain ⟨rfl, rfl⟩ := List.cons.inj (pointerText_inj hEmpty)
    have hRead : ReadStrictly (Json.pointerText [[]]) (.obj fields) := by
      rw [readStrictly_pointerText_iff]
      rintro _ (_ | ⟨hStep, _ | _⟩) -
      rename_i step
      cases step with
      | key key => exact .inl (.cons hStep .nil)
      | index i => cases hStep
    rw [and_iff_left hRead]
    exact (removesAddressed_slash_iff fields).trans ⟨fun hNone _ => hNone, fun hNone => hNone rfl⟩
  · rw [readStrictly_pointerText_iff, ← removeByTokens_addressed_iff _
        (by rintro _ step rfl; exact reads_stepToken step) (List.cons_ne_nil token tokens),
      ← removeJSONPointer_pointerText hTrimmed hSlash]
    constructor
    · intro hRemoves
      refine ⟨fun hEq => absurd hEq hSlash, fun place hNamed hNode => ?_, fun hNone => ?_⟩
      · exact hRemoves.removed place (addresses_pointerText_iff.mpr ⟨hNamed, hNode⟩)
      · refine hRemoves.kept fun place hPlace => ?_
        obtain ⟨hNamed, hNode⟩ := addresses_pointerText_iff.mp hPlace
        rw [hNone place hNamed] at hNode
        cases hNode
    · rintro ⟨-, hRemoved, hKept⟩
      refine ⟨fun place hPlace => ?_, fun hNone => hKept fun place hNamed => ?_⟩
      · obtain ⟨hNamed, hNode⟩ := addresses_pointerText_iff.mp hPlace
        exact hRemoved place hNamed hNode
      · by_contra hSome
        exact hNone place
          (addresses_pointerText_iff.mpr ⟨hNamed, Option.ne_none_iff_isSome.mp hSome⟩)

def portList : Json := .obj [("ports", .arr [.int 80, .int 443]), ("a/b", .null)]

/- A list's element is nulled, and the entry of a key with a slash is taken out. -/
theorem ports_are_removed :
    RemovesAddressed "/ports/1" portList ∧ RemovesAddressed "/a~1b" portList := by
  have hPorts : ("/ports/1" : Text) = Json.pointerText [("ports" : Text), "1"] := by decide
  have hSlash : ("/a~1b" : Text) = Json.pointerText [("a/b" : Text)] := by decide
  constructor
  · refine (removes_addressed_iff (by decide) (by decide) _).mpr ⟨by decide, ?_⟩
    rw [hPorts]
    have hAt : locate [("ports" : Text), "1"] portList = some [.key "ports", .index 1] := by
      decide +kernel
    exact readStrictly_of_locate hAt (by decide +kernel)
  · refine (removes_addressed_iff (by decide) (by decide) _).mpr ⟨by decide, ?_⟩
    rw [hSlash]
    have hAt : locate [("a/b" : Text)] portList = some [.key "a/b"] := by decide +kernel
    exact readStrictly_of_locate hAt (by decide +kernel)

/-
  The token `01` is no index of RFC 6901, and the pointer `/` addresses the empty key.
-/
theorem pointer_reads_differ : Validation.validateRFC6901Pointer "/ports/01" = none ∧
    removeJSONPointer portList "/ports/01" =
      .obj [("ports", .arr [.int 80, .null]), ("a/b", .null)] ∧
    (∀ place, ¬ Json.Addresses "/ports/01" portList place) ∧
    Validation.validateRFC6901Pointer ['/'] = none ∧
    removeJSONPointer (.obj [([], .int 1)]) ['/'] = .obj [([], .int 1)] ∧
    Json.Addresses ['/'] (.obj [([], .int 1)]) [.key []] := by
  refine ⟨by decide, by decide +kernel, fun place hPlace => ?_, by decide, by decide, by decide,
    rfl⟩
  have hTokens : ("/ports/01" : Text) = Json.pointerText [("ports" : Text), "01"] := by decide
  rw [hTokens] at hPlace
  obtain ⟨hNamed, hNode⟩ := addresses_pointerText_iff.mp hPlace
  have hLocated := locate_of_reads
    (hNamed.imp fun _ step hName => hName ▸ reads_stepToken step) hNode
  have hAt : locate [("ports" : Text), "01"] portList = some [.key "ports", .index 1] := by
    decide +kernel
  obtain rfl := Option.some.inj (hLocated.symm.trans hAt)
  exact absurd (pointerText_inj hPlace.1) (by decide)

end Collect
end Kollect
