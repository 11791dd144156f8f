import Mathlib.Algebra.BigOperators.Group.List.Basic
import Mathlib.Algebra.Ring.Nat
import Mathlib.Data.Char
import Mathlib.Data.List.AList
import Mathlib.Data.List.Sort
import Mathlib.Data.List.Dedup
import Mathlib.Data.List.Find
import Mathlib.Data.List.Infix
import Mathlib.Data.List.Lex

/-
  Text, finite maps and fallible steps as a Go program handles them.

  A Go string holding valid UTF-8 is its list of runes. A Go map is an association list with
  distinct keys: the list order is one of the iteration orders the runtime may pick, so a statement
  about every list is a statement about every iteration order.

  An updated map is read by:
    * `GoMap.lookup_insert_ite`
    * `GoMap.lookup_erase_ite`
    * `GoMap.lookup_filterKeys`

  A sequence of fallible steps is taken apart by:
    * `Fallible.bind_eq_ok`
    * `Fallible.checkAll_eq_ok`
-/

----
-- Types
----

/- A valid UTF-8 string, as its list of runes. -/
abbrev Text := List Char

instance : Coe String Text := ⟨String.toList⟩

instance : LawfulBEq Text := inferInstance

/- A map with one value for each of finitely many keys. -/
abbrev GoMap (K V : Type) := AList (fun _ : K => V)

----
-- Maps
----

namespace GoMap

variable {K V : Type} [DecidableEq K]

/- An instance that evaluates. -/
instance [DecidableEq V] : DecidableEq (GoMap K V) := fun m m' =>
  decidable_of_iff (m.entries = m'.entries) AList.ext_iff.symm

/- The map with the given entries; later ones win. -/
def ofList (entries : List (K × V)) : GoMap K V :=
  entries.foldl (fun m entry => m.insert entry.1 entry.2) ∅

theorem lookup_insert_ite (m : GoMap K V) (k k' : K) (v : V) :
    (m.insert k v).lookup k' = if k' = k then some v else m.lookup k' := by
  split_ifs with hKey
  · subst hKey
    exact AList.lookup_insert m
  · exact AList.lookup_insert_ne hKey

theorem lookup_erase_ite (m : GoMap K V) (k k' : K) :
    (m.erase k).lookup k' = if k' = k then none else m.lookup k' := by
  split_ifs with hKey
  · subst hKey
    exact AList.lookup_erase k' m
  · exact AList.lookup_erase_ne hKey

theorem lookup_foldl_map {W : Type} (f : V → W) {entries : List (Sigma fun _ : K => V)}
    (hNodup : entries.NodupKeys) (start : GoMap K W) (k : K) :
    ((entries.map fun entry => (entry.1, f entry.2)).foldl (fun m entry => m.insert entry.1 entry.2)
        start).lookup k = ((entries.dlookup k).map f).or (start.lookup k) := by
  induction entries generalizing start with
  | nil => rfl
  | cons entry entries ih =>
    rw [List.nodupKeys_cons] at hNodup
    rw [List.map_cons, List.foldl_cons, ih hNodup.2, lookup_insert_ite]
    by_cases hKey : k = entry.1
    · subst hKey
      rw [List.dlookup_eq_none.mpr hNodup.1, if_pos rfl, List.dlookup_cons_eq]
      rfl
    · rw [if_neg hKey, List.dlookup_cons_ne _ _ hKey]

theorem lookup_ofList_map {W : Type} (f : V → W) (m : GoMap K V) (k : K) :
    (ofList (m.entries.map fun entry => (entry.1, f entry.2))).lookup k = (m.lookup k).map f :=
  (lookup_foldl_map f m.nodupKeys ∅ k).trans Option.or_none

def filterKeys (m : GoMap K V) (keep : K → Bool) : GoMap K V :=
  ⟨m.entries.filter (fun entry => keep entry.1),
    List.NodupKeys.sublist List.filter_sublist m.nodupKeys⟩

theorem lookup_filterKeys (m : GoMap K V) (keep : K → Bool) (k : K) :
    (m.filterKeys keep).lookup k = if keep k = true then m.lookup k else none := by
  apply Option.ext
  intro v
  have hFiltered := List.mem_dlookup_iff (m.filterKeys keep).nodupKeys (a := k) (b := v)
  have hAll := List.mem_dlookup_iff m.nodupKeys (a := k) (b := v)
  rw [← Option.mem_def, ← Option.mem_def]
  refine hFiltered.trans ?_
  rw [filterKeys, List.mem_filter, ← hAll]
  split_ifs with hKeep
  · simp [hKeep, AList.lookup]
  · simp [hKeep]

end GoMap

----
-- Fallible Steps
----

namespace Fallible

variable {ε α β : Type}

variable {x : Except ε α} {f : α → Except ε β}

theorem bind_eq_ok {b : β} : (x >>= f) = .ok b ↔ ∃ a, x = .ok a ∧ f a = .ok b := by
  cases x with
  | error e =>
    constructor
    · intro h
      cases h
    · rintro ⟨a, h, -⟩
      cases h
  | ok a =>
    constructor
    · intro h
      exact ⟨a, rfl, h⟩
    · rintro ⟨a', h, hF⟩
      cases h
      exact hF

theorem bind_eq_error {e : ε} :
    (x >>= f) = .error e ↔ x = .error e ∨ ∃ a, x = .ok a ∧ f a = .error e := by
  cases x with
  | error e' =>
    constructor
    · intro h
      cases h
      exact Or.inl rfl
    · rintro (h | ⟨a, h, -⟩)
      · cases h
        rfl
      · cases h
  | ok a =>
    constructor
    · intro h
      exact Or.inr ⟨a, rfl, h⟩
    · rintro (h | ⟨a', h, hError⟩)
      · cases h
      · cases h
        exact hError

theorem mapError_eq_ok {ε' : Type} {e : ε → ε'} {a : α} : x.mapError e = .ok a ↔ x = .ok a := by
  cases x <;> simp [Except.mapError]

variable {xs : List α}

theorem mapM_eq_ok {ys : List β} : xs.mapM f = .ok ys ↔ xs.map f = ys.map .ok := by
  induction xs generalizing ys with
  | nil =>
    rw [List.mapM_nil, List.map_nil]
    constructor
    · intro hOk
      cases hOk
      rfl
    · intro hMap
      rw [List.map_eq_nil_iff.mp hMap.symm]
      rfl
  | cons x xs ih =>
    rw [List.mapM_cons, bind_eq_ok, List.map_cons]
    constructor
    · rintro ⟨y, hHead, hTail⟩
      rcases bind_eq_ok.mp hTail with ⟨zs, hRest, hZs⟩
      cases hZs
      rw [List.map_cons, hHead, ih.mp hRest]
    · intro hMap
      cases ys with
      | nil => cases hMap
      | cons y ys =>
        rw [List.map_cons, List.cons.injEq] at hMap
        exact ⟨y, hMap.1, bind_eq_ok.mpr ⟨ys, ih.mpr hMap.2, rfl⟩⟩

/- Check the elements in order, up to the first error. -/
def checkAll (check : α → Except ε Unit) : List α → Except ε Unit
  | [] => .ok ()
  | x :: xs => do
      check x
      checkAll check xs

variable {check : α → Except ε Unit}

theorem checkAll_eq_ok : checkAll check xs = .ok () ↔ ∀ x ∈ xs, check x = .ok () := by
  induction xs with
  | nil => simp [checkAll]
  | cons x xs ih =>
    rw [checkAll, bind_eq_ok, List.forall_mem_cons, ← ih]
    exact ⟨fun ⟨_, hHead, hTail⟩ => ⟨hHead, hTail⟩, fun ⟨hHead, hTail⟩ => ⟨(), hHead, hTail⟩⟩

theorem checkAll_eq_error {e : ε} :
    checkAll check xs = .error e ↔ ∃ front x rest, xs = front ++ x :: rest ∧
        (∀ y ∈ front, check y = .ok ()) ∧ check x = .error e := by
  induction xs with
  | nil => simp [checkAll]
  | cons x xs ih =>
    rw [checkAll, bind_eq_error, ih]
    constructor
    · rintro (hHead | ⟨⟨⟩, hOk, front, y, rest, rfl, hFront, hY⟩)
      · exact ⟨[], x, xs, rfl, by simp, hHead⟩
      · exact ⟨x :: front, y, rest, rfl, List.forall_mem_cons.mpr ⟨hOk, hFront⟩, hY⟩
    · rintro ⟨front, y, rest, hEq, hFront, hY⟩
      cases front with
      | nil =>
        cases hEq
        exact Or.inl hY
      | cons z front =>
        cases hEq
        rw [List.forall_mem_cons] at hFront
        exact Or.inr ⟨(), hFront.1, front, y, rest, rfl, hFront.2, hY⟩

end Fallible

----
-- Cutting And Trimming
----

namespace Text

/- `unicode.IsSpace`, by code point. -/
def isSpace (c : Char) : Bool :=
  c.toNat ∈ [0x09, 0x0a, 0x0b, 0x0c, 0x0d, 0x20, 0x85, 0xa0,
    0x1680, 0x2028, 0x2029, 0x202f, 0x205f, 0x3000] ||
  (0x2000 ≤ c.toNat && c.toNat ≤ 0x200a)

variable {sep : Char} {a b : Text}

/- A text is cut in one way at its first separator. -/
theorem append_sep_inj {a' b' : Text} (hA : sep ∉ a) (hA' : sep ∉ a') :
    a ++ sep :: b = a' ++ sep :: b' ↔ a = a' ∧ b = b' := by
  induction a generalizing a' with
  | nil =>
    cases a' with
    | nil => simp
    | cons c a' =>
      have hNe : sep ≠ c := fun hEq => hA' (hEq ▸ List.mem_cons_self)
      simp [hNe]
  | cons c a ih =>
    cases a' with
    | nil =>
      have hNe : c ≠ sep := fun hEq => hA (hEq ▸ List.mem_cons_self)
      simp [hNe]
    | cons c' a' =>
      rw [List.cons_append, List.cons_append, List.cons.injEq, List.cons.injEq,
        ih (fun h => hA (List.mem_cons_of_mem c h)) (fun h => hA' (List.mem_cons_of_mem c' h)),
        and_assoc]

/- The text after the last separator is unique, too. -/
theorem append_lastSep_inj {a' b' : Text} (hB : sep ∉ b) (hB' : sep ∉ b') :
    a ++ sep :: b = a' ++ sep :: b' ↔ a = a' ∧ b = b' := by
  rw [← List.reverse_inj]
  simp only [List.reverse_append, List.reverse_cons, List.append_assoc, List.singleton_append]
  rw [append_sep_inj (by simpa using hB) (by simpa using hB'), List.reverse_inj, List.reverse_inj]
  exact and_comm

/- The length in UTF-8 bytes, Go's `len` of a string. -/
def byteLen (s : Text) : Nat := (s.map Char.utf8Size).sum

@[simp] theorem byteLen_append (s t : Text) : byteLen (s ++ t) = byteLen s + byteLen t := by
  simp [byteLen]

/-
  Simple case folding of the runes that fold to ASCII; U+212A and U+017F are the only ones outside
  it.
-/
def foldRune (c : Char) : Char :=
  if c = '\u212a' then 'k'
  else if c = '\u017f' then 's'
  else c.toLower

/- `strings.EqualFold` against an ASCII text. -/
def equalFold (s ascii : Text) : Bool := s.map foldRune = ascii.map foldRune

/- `strings.ToLower` of an ASCII text. -/
def toLower (s : Text) : Text := s.map Char.toLower

/- A byte outside of any rune, as a rune of the last plane. -/
def rawByte (b : UInt8) : Char := Char.ofNat (0x10ff00 + b.toNat)

/- `s[:n]`. A rune that is cut leaves bytes that are no text any more. -/
def cutBytes : Nat → Text → Text
  | _, [] => []
  | n, c :: s =>
    if c.utf8Size ≤ n then c :: cutBytes (n - c.utf8Size) s
    else ((String.utf8EncodeChar c).take n).map rawByte

/- A byte outside of any rune, see `rawByte`. -/
def isRaw (c : Char) : Bool := 0x10ff00 ≤ c.toNat

/- The bytes of a Go string. -/
def bytes (s : Text) : List UInt8 :=
  s.flatMap fun c => if isRaw c then [UInt8.ofNat (c.toNat - 0x10ff00)] else String.utf8EncodeChar c

/- A string as `json.Marshal` writes it. -/
def marshalled (s : Text) : Text := s.map fun c => if isRaw c then '�' else c

/- The replacement is two bytes longer than what it stands for. -/
theorem length_bytes_marshalled (s : Text) :
    (bytes (marshalled s)).length = (bytes s).length + 2 * s.countP isRaw := by
  have hRune : bytes ['�'] = [0xef, 0xbf, 0xbd] := by decide
  induction s with
  | nil => rfl
  | cons c s ih =>
    have hCons : ∀ (c : Char) (s : Text), bytes (c :: s) = bytes [c] ++ bytes s := by
      intro c s
      simp [bytes]
    rw [marshalled, List.map_cons, hCons, hCons c s, List.length_append, List.length_append]
    change _ + (bytes (marshalled s)).length = _
    cases hC : isRaw c with
    | false => rw [ih]; simp [hC]; omega
    | true => rw [ih, if_pos rfl, hRune]; simp [hC, bytes]; omega

variable {s : Text}

/- Valid UTF-8: no byte stands outside of a rune. -/
def IsText (s : Text) : Prop := ∀ c ∈ s, isRaw c = false

instance (s : Text) : Decidable (IsText s) := List.decidableBAll _ s

theorem isText_iff_countP : IsText s ↔ s.countP isRaw = 0 := by
  rw [List.countP_eq_zero]
  exact forall₂_congr fun c _ => Bool.eq_false_iff

theorem marshalled_of_isText (hText : IsText s) : marshalled s = s := by
  refine (List.map_congr_left fun c hC => ?_).trans s.map_id
  rw [hText c hC]
  rfl

theorem map_marshalled_of_isText {texts : List Text} (hText : ∀ s ∈ texts, IsText s) :
    texts.map marshalled = texts :=
  (List.map_congr_left fun s hS => marshalled_of_isText (hText s hS)).trans texts.map_id

theorem isText_marshalled (s : Text) : IsText (marshalled s) := by
  intro c hC
  obtain ⟨d, -, rfl⟩ := List.mem_map.mp hC
  split_ifs with hRaw
  · decide
  · exact Bool.eq_false_iff.mpr hRaw

/-
  Replace every longest run of at least `least` matching runes by a mark; `run` is the run being
  read, backwards.
-/
def collapseRuns (p : Char → Bool) (least : Nat) (mark : Char) : Text → Text → Text
  | run, [] => if run.length < least then run.reverse else [mark]
  | run, c :: s =>
    if p c then collapseRuns p least mark (c :: run) s
    else if run.length < least then run.reverse ++ c :: collapseRuns p least mark [] s
    else mark :: c :: collapseRuns p least mark [] s

/- The position of the last occurrence of a rune. -/
def lastIndex (c : Char) (s : Text) : Option Nat :=
  if c ∈ s then some (s.length - 1 - s.reverse.idxOf c)
  else none

def contains (s part : Text) : Bool := s.tails.any part.isPrefixOf

/- A code without one rune: a `0` or a `1` before each rune. -/
def escape (mark : Char) : Text → Text
  | [] => []
  | c :: s =>
    if c = mark then '0' :: '0' :: escape mark s
    else '1' :: c :: escape mark s

theorem escape_injective (mark : Char) : Function.Injective (escape mark) := by
  intro s t hEq
  induction s generalizing t with
  | nil =>
    cases t with
    | nil => rfl
    | cons d t =>
      unfold escape at hEq
      split_ifs at hEq
  | cons c s ih =>
    cases t with
    | nil =>
      unfold escape at hEq
      split_ifs at hEq
    | cons d t =>
      unfold escape at hEq
      split_ifs at hEq with hC hD hD
      · rw [hC, hD, ih (by simpa using hEq)]
      · simp at hEq
      · simp at hEq
      · simp only [List.cons.injEq, true_and] at hEq
        rw [hEq.1, ih hEq.2]

theorem notMem_escape {mark : Char} (hZero : mark ≠ '0') (hOne : mark ≠ '1') (s : Text) :
    mark ∉ escape mark s := by
  induction s with
  | nil => simp [escape]
  | cons c s ih =>
    unfold escape
    split_ifs with hC
    · simp [ih, hZero]
    · simp [ih, hOne, Ne.symm hC]

def trimStart (s front : Text) : Text := if front.isPrefixOf s then s.drop front.length else s

def trimEnd (s back : Text) : Text :=
  if back.isSuffixOf s then s.take (s.length - back.length)
  else s

/-
  `strings.NewReplacer`: at each position the first pattern that matches is replaced, and reading
  goes on after it. `skip` counts the runes of a match still to be passed over.
-/
def replaceFrom (pairs : List (Text × Text)) : Nat → Text → Text
  | _, [] => []
  | skip + 1, _ :: s => replaceFrom pairs skip s
  | 0, c :: s =>
    match pairs.find? (fun pair => pair.1.isPrefixOf (c :: s)) with
    | some pair => pair.2 ++ replaceFrom pairs (pair.1.length - 1) s
    | none => c :: replaceFrom pairs 0 s

def replaceAll (pairs : List (Text × Text)) (s : Text) : Text := replaceFrom pairs 0 s

theorem replaceAll_nil (pairs : List (Text × Text)) : replaceAll pairs [] = [] := rfl

theorem replaceFrom_drop (pairs : List (Text × Text)) (front s : Text) :
    replaceFrom pairs front.length (front ++ s) = replaceFrom pairs 0 s := by
  induction front with
  | nil => rfl
  | cons c front ih => simpa only [List.length_cons, List.cons_append, replaceFrom] using ih

variable {pairs : List (Text × Text)}

theorem replaceAll_literal {opening : Char} {literal : Text}
    (hOpening : ∀ pair ∈ pairs, pair.1.head? = some opening) (hLiteral : opening ∉ literal)
    (s : Text) : replaceAll pairs (literal ++ s) = literal ++ replaceAll pairs s := by
  induction literal with
  | nil => rfl
  | cons c literal ih =>
    obtain ⟨hNe, hLiteral⟩ := not_or.mp (mt List.mem_cons.mpr hLiteral)
    have hFind : pairs.find? (fun pair => pair.1.isPrefixOf (c :: (literal ++ s))) = none := by
      rw [List.find?_eq_none]
      intro pair hPair hBegins
      obtain ⟨key, hKey⟩ := List.head?_eq_some_iff.mp (hOpening pair hPair)
      rw [hKey, List.isPrefixOf_cons_cons, Bool.and_eq_true, beq_iff_eq] at hBegins
      exact hNe hBegins.1
    have hRest := ih hLiteral
    rw [replaceAll, List.cons_append, replaceFrom]
    simp only [hFind]
    rw [List.cons_append, ← hRest, replaceAll]

theorem replaceAll_key {key value s : Text} (hKey : key ≠ [])
    (hFind : pairs.find? (fun pair => pair.1.isPrefixOf (key ++ s)) = some (key, value)) :
    replaceAll pairs (key ++ s) = value ++ replaceAll pairs s := by
  cases key with
  | nil => exact absurd rfl hKey
  | cons c key =>
    rw [List.cons_append] at hFind
    rw [replaceAll, List.cons_append, replaceFrom]
    simp only [hFind]
    rw [List.length_cons, Nat.add_sub_cancel, replaceFrom_drop, replaceAll]

theorem isPrefixOf_append_sep {key rest : Text} (hKey : sep ∉ key) :
    key.isPrefixOf (s ++ sep :: rest) = key.isPrefixOf s := by
  induction key generalizing s with
  | nil => cases s <;> rfl
  | cons c key ih =>
    rw [List.mem_cons, not_or] at hKey
    cases s with
    | nil => simp [List.isPrefixOf, Ne.symm hKey.1]
    | cons d s =>
      rw [List.cons_append, List.isPrefixOf_cons_cons, List.isPrefixOf_cons_cons, ih hKey.2]

theorem replaceFrom_append_sep (hKeys : ∀ pair ∈ pairs, sep ∉ pair.1.tail) (s rest : Text)
    {skip : Nat} (hSkip : skip ≤ s.length) : replaceFrom pairs skip (s ++ sep :: rest) =
      replaceFrom pairs skip s ++ replaceFrom pairs 0 (sep :: rest) := by
  induction s generalizing skip with
  | nil =>
    rw [Nat.le_zero.mp hSkip]
    rfl
  | cons c s ih =>
    cases skip with
    | succ skip => exact ih (Nat.le_of_succ_le_succ hSkip)
    | zero =>
      have hFind : pairs.find? (fun pair => pair.1.isPrefixOf (c :: s ++ sep :: rest)) =
            pairs.find? (fun pair => pair.1.isPrefixOf (c :: s)) := by
        apply List.find?_congr
        intro pair hPair
        have hTail := hKeys pair hPair
        cases hKey : pair.1 with
        | nil => rfl
        | cons d key =>
          rw [hKey, List.tail_cons] at hTail
          rw [List.cons_append, List.isPrefixOf_cons_cons, List.isPrefixOf_cons_cons,
            isPrefixOf_append_sep hTail]
      rw [List.cons_append] at hFind
      rw [List.cons_append, replaceFrom, replaceFrom, hFind]
      cases hFound : pairs.find? (fun pair => pair.1.isPrefixOf (c :: s)) with
      | none =>
        simp only [List.cons_append]
        rw [ih (Nat.zero_le _)]
      | some pair =>
        have hFront := List.find?_some hFound
        have hLength := (List.isPrefixOf_iff_prefix.mp hFront).length_le
        rw [List.length_cons] at hLength
        simp only [List.append_assoc]
        rw [ih (by omega)]

theorem replaceAll_append_sep (hKeys : ∀ pair ∈ pairs, sep ∉ pair.1.tail) (s rest : Text) :
    replaceAll pairs (s ++ sep :: rest) = replaceAll pairs s ++ replaceAll pairs (sep :: rest) :=
  replaceFrom_append_sep hKeys s rest (Nat.zero_le _)

variable {pairs' : List (Text × Text)}

theorem replaceFrom_congr
    (hFind : ∀ tail, tail <:+ s → pairs.find? (fun pair => pair.1.isPrefixOf tail) =
        pairs'.find? (fun pair => pair.1.isPrefixOf tail)) (skip : Nat) :
    replaceFrom pairs skip s = replaceFrom pairs' skip s := by
  induction s generalizing skip with
  | nil => cases skip <;> rfl
  | cons c s ih =>
    have hTails := fun tail hTail => hFind tail (List.IsSuffix.trans hTail (List.suffix_cons c s))
    cases skip with
    | succ skip => exact ih hTails skip
    | zero =>
      rw [replaceFrom, replaceFrom, hFind (c :: s) (List.suffix_refl _)]
      cases pairs'.find? (fun pair => pair.1.isPrefixOf (c :: s)) with
      | none | some => simp only [ih hTails]

variable {c : Char}

/-
  Values with more of a rune leave more of it. The keys are the same, so the same places are
  replaced.
-/
theorem count_replaceFrom_le (hPairs : List.Forall₂
        (fun pair pair' => pair.1 = pair'.1 ∧ pair.2.count c ≤ pair'.2.count c) pairs pairs')
    (s : Text) (skip : Nat) :
    (replaceFrom pairs skip s).count c ≤ (replaceFrom pairs' skip s).count c := by
  have hFind : ∀ tail : Text,
      (pairs.find? (fun pair => pair.1.isPrefixOf tail) = none ∧
        pairs'.find? (fun pair => pair.1.isPrefixOf tail) = none) ∨
      ∃ pair pair', pairs.find? (fun pair => pair.1.isPrefixOf tail) = some pair ∧
        pairs'.find? (fun pair => pair.1.isPrefixOf tail) = some pair' ∧
        pair.1 = pair'.1 ∧ pair.2.count c ≤ pair'.2.count c := by
    intro tail
    induction hPairs with
    | nil => exact Or.inl ⟨rfl, rfl⟩
    | @cons pair pair' rest rest' hPair _ ih =>
      rw [List.find?_cons, List.find?_cons, ← hPair.1]
      cases pair.1.isPrefixOf tail with
      | true => exact Or.inr ⟨pair, pair', rfl, rfl, hPair⟩
      | false => exact ih
  induction s generalizing skip with
  | nil => cases skip <;> exact Nat.le_refl _
  | cons d s ih =>
    cases skip with
    | succ skip => exact ih skip
    | zero =>
      rw [replaceFrom, replaceFrom]
      rcases hFind (d :: s) with ⟨hNone, hNone'⟩ | ⟨pair, pair', hSome, hSome', hPair⟩
      · rw [hNone, hNone']
        simp only [List.count_cons]
        exact Nat.add_le_add_right (ih 0) _
      · rw [hSome, hSome']
        simp only [List.count_append, hPair.1]
        exact Nat.add_le_add hPair.2 (ih _)

section Ends

variable {pairs : List (Text × Text)} {p : Char → Bool} {s : Text}

/- The first rune comes from the text or from a value. -/
theorem head_replaceAll (hValues : ∀ pair ∈ pairs, pair.2 ≠ [] ∧ ∀ c ∈ pair.2.head?, p c = false)
    (hS : ∀ c ∈ s.head?, p c = false) : ∀ c ∈ (replaceAll pairs s).head?, p c = false := by
  intro d hD
  cases s with
  | nil => cases hD
  | cons c s =>
    rw [replaceAll, replaceFrom] at hD
    cases hFind : pairs.find? (fun pair => pair.1.isPrefixOf (c :: s)) with
    | none =>
      rw [hFind] at hD
      exact hS d hD
    | some pair =>
      have hPair := hValues pair (List.mem_of_find?_eq_some hFind)
      rw [hFind] at hD
      rw [List.head?_append_of_ne_nil _ hPair.1] at hD
      exact hPair.2 d hD

theorem replaceFrom_ne_nil (hValues : ∀ pair ∈ pairs, pair.2 ≠ []) (hS : s ≠ []) :
    replaceFrom pairs 0 s ≠ [] := by
  cases s with
  | nil => exact absurd rfl hS
  | cons c s =>
    rw [replaceFrom]
    cases hFind : pairs.find? (fun pair => pair.1.isPrefixOf (c :: s)) with
    | none => exact List.cons_ne_nil _ _
    | some pair =>
      exact List.append_ne_nil_of_left_ne_nil (hValues pair (List.mem_of_find?_eq_some hFind)) _

/- So does the last one. -/
theorem getLast_replaceFrom
    (hValues : ∀ pair ∈ pairs, pair.2 ≠ [] ∧ ∀ c ∈ pair.2.getLast?, p c = false)
    (hS : ∀ c ∈ s.getLast?, p c = false) (skip : Nat) :
    ∀ c ∈ (replaceFrom pairs skip s).getLast?, p c = false := by
  induction s generalizing skip with
  | nil =>
    intro d hD
    cases skip <;> cases hD
  | cons c s ih =>
    have hTail : ∀ d ∈ s.getLast?, p d = false := by
      intro d hD
      apply hS
      rw [List.getLast?_cons, hD]
      rfl
    cases skip with
    | succ skip => exact ih hTail skip
    | zero =>
      intro d hD
      rw [replaceFrom] at hD
      cases hFind : pairs.find? (fun pair => pair.1.isPrefixOf (c :: s)) with
      | none =>
        rw [hFind] at hD
        by_cases hEmpty : s = []
        · rw [hEmpty] at hD
          apply hS
          rw [hEmpty]
          exact hD
        · have hMore := replaceFrom_ne_nil (fun pair hPair => (hValues pair hPair).1) hEmpty
          rw [← List.singleton_append, List.getLast?_append_of_ne_nil _ hMore] at hD
          exact ih hTail 0 d hD
      | some pair =>
        have hPair := hValues pair (List.mem_of_find?_eq_some hFind)
        rw [hFind] at hD
        dsimp only at hD
        by_cases hEmpty : replaceFrom pairs (pair.1.length - 1) s = []
        · rw [hEmpty, List.append_nil] at hD
          exact hPair.2 d hD
        · rw [List.getLast?_append_of_ne_nil _ hEmpty] at hD
          exact ih hTail _ d hD

end Ends

theorem drop_length_takeWhile (p : Char → Bool) (s : Text) :
    s.drop (s.takeWhile p).length = s.dropWhile p := by
  induction s with
  | nil => rfl
  | cons c s ih =>
    by_cases hC : p c = true
    · rw [List.takeWhile_cons_of_pos hC, List.dropWhile_cons_of_pos hC]
      exact ih
    · rw [List.takeWhile_cons_of_neg hC, List.dropWhile_cons_of_neg hC]
      rfl

def trimFunc (p : Char → Bool) (s : Text) : Text := ((s.dropWhile p).reverse.dropWhile p).reverse

def trimSpace (s : Text) : Text := trimFunc isSpace s

/- The digits of a number, zeros in front up to a width. -/
def digitsPadded (base width n : Nat) : Text :=
  let digits := Nat.toDigits base n
  List.replicate (width - digits.length) '0' ++ digits

def ofInt (n : Int) : Text :=
  if n < 0 then '-' :: Nat.toDigits 10 n.natAbs
  else Nat.toDigits 10 n.natAbs

theorem isDigit_of_mem_digitsPadded {width n : Nat} (hC : c ∈ digitsPadded 10 width n) :
    c.isDigit = true := by
  rcases List.mem_append.mp hC with hZero | hDigit
  · rw [List.eq_of_mem_replicate hZero]
    decide
  · exact Nat.isDigit_of_mem_toDigits (by decide) (by decide) hDigit

theorem ofDigitChars_digitsPadded (width n : Nat) :
    Nat.ofDigitChars 10 (digitsPadded 10 width n) 0 = n := by
  rw [digitsPadded, Nat.ofDigitChars_append, Nat.ofDigitChars_replicate_zero]
  simp [Nat.ofDigitChars_ten_toDigits]

theorem digitsPadded_inj {width n m : Nat}
    (hEq : digitsPadded 10 width n = digitsPadded 10 width m) : n = m := by
  rw [← ofDigitChars_digitsPadded width n, hEq, ofDigitChars_digitsPadded]

theorem exists_last_occurrence (hC : c ∈ s) :
    ∃ before after, s = before ++ c :: after ∧ c ∉ after := by
  rcases List.eq_append_cons_of_mem (List.mem_reverse.mpr hC) with ⟨u, v, hReverse, hU⟩
  refine ⟨v.reverse, u.reverse, ?_, by simpa using hU⟩
  rw [← List.reverse_reverse s, hReverse]
  simp

theorem lastIndex_append (a : Text) (hB : c ∉ b) : lastIndex c (a ++ c :: b) = some a.length := by
  have hReverse : (a ++ c :: b).reverse = b.reverse ++ c :: a.reverse := by simp
  have hNot : c ∉ b.reverse := by simpa using hB
  unfold lastIndex
  rw [if_pos (by simp), hReverse, List.idxOf_append_of_notMem hNot, List.idxOf_cons_self]
  simp

theorem lastIndex_eq_none (hC : c ∉ s) : lastIndex c s = none := if_neg hC

variable {p : Char → Bool}

theorem trimFunc_eq_self_of_ends (hHead : ∀ c ∈ s.head?, p c = false)
    (hLast : ∀ c ∈ s.getLast?, p c = false) : trimFunc p s = s := by
  have hDrop : ∀ t : Text, (∀ c ∈ t.head?, p c = false) → t.dropWhile p = t := by
    intro t hT
    cases t with
    | nil => rfl
    | cons c t =>
      rw [List.dropWhile_cons_of_neg]
      simp [hT c rfl]
  rw [trimFunc, hDrop s hHead, hDrop s.reverse, List.reverse_reverse]
  rw [List.head?_reverse]
  exact hLast

theorem trimFunc_eq_self (hS : ∀ c ∈ s, p c = false) : trimFunc p s = s :=
  trimFunc_eq_self_of_ends (fun c hC => hS c (List.mem_of_mem_head? hC))
    (fun c hC => hS c (List.mem_of_mem_getLast? hC))

theorem trimFunc_append {back : Text} (front : Text) (hBack : ∀ c ∈ back, p c = true)
    (hHead : s.head?.any (fun c => !p c) = true) (hLast : s.getLast?.any (fun c => !p c) = true) :
    trimFunc p (front ++ s ++ back) = front.dropWhile p ++ s := by
  have hKept : ∀ t rest : Text, t.head?.any (fun c => !p c) = true →
      (t ++ rest).dropWhile p = t ++ rest := by
    intro t rest hT
    cases t with
    | nil => cases hT
    | cons c t => exact List.dropWhile_cons_of_neg (by simpa using hT)
  have hTail : ∀ c ∈ back.reverse, p c = true := fun c hC => hBack c (List.mem_reverse.mp hC)
  have hFront : (front ++ (s ++ back)).dropWhile p = front.dropWhile p ++ (s ++ back) := by
    rw [List.dropWhile_append]
    split_ifs with hEmpty
    · rw [hKept s back hHead, List.isEmpty_iff.mp hEmpty]
      rfl
    · rfl
  rw [trimFunc, List.append_assoc, hFront, List.reverse_append, List.reverse_append,
    List.append_assoc, List.dropWhile_append_of_pos hTail,
    hKept s.reverse _ (by rwa [List.head?_reverse]), List.reverse_append, List.reverse_reverse,
    List.reverse_reverse]

theorem trimFunc_surround {front back : Text} (hFront : ∀ c ∈ front, p c = true)
    (hBack : ∀ c ∈ back, p c = true) (hHead : s.head?.any (fun c => !p c) = true)
    (hLast : s.getLast?.any (fun c => !p c) = true) : trimFunc p (front ++ s ++ back) = s := by
  have hNone : (front ++ []).dropWhile p = [] := List.dropWhile_append_of_pos hFront
  rw [List.append_nil] at hNone
  rw [trimFunc_append front hBack hHead hLast, hNone]
  rfl

theorem mem_of_mem_trimFunc (hC : c ∈ trimFunc p s) : c ∈ s := by
  unfold trimFunc at hC
  rw [List.mem_reverse] at hC
  have hInner := (List.dropWhile_sublist p).subset hC
  rw [List.mem_reverse] at hInner
  exact (List.dropWhile_sublist p).subset hInner

theorem trimFunc_isPrefix (p : Char → Bool) (s : Text) : trimFunc p s <+: s.dropWhile p := by
  rw [trimFunc, ← List.reverse_suffix, List.reverse_reverse]
  exact List.dropWhile_suffix p

theorem trimFunc_ends (p : Char → Bool) (s : Text) :
    (∀ c ∈ (trimFunc p s).head?, p c = false) ∧ ∀ c ∈ (trimFunc p s).getLast?, p c = false := by
  constructor
  · intro c hC
    cases hTrim : trimFunc p s with
    | nil =>
      rw [hTrim] at hC
      cases hC
    | cons d rest =>
      rcases trimFunc_isPrefix p s with ⟨tail, hTail⟩
      have hHead := List.head?_dropWhile_not p s
      rw [← hTail, hTrim] at hHead
      rw [hTrim] at hC
      rw [← Option.some.inj hC]
      simpa using hHead
  · intro c hC
    have hHead := List.head?_dropWhile_not p (s.dropWhile p).reverse
    rw [trimFunc, List.getLast?_reverse] at hC
    rw [hC] at hHead
    simpa using hHead

variable {part : Text}

theorem prefix_of_prefix_append {d : Char} (hLast : part.getLast? = some d) (hB : d ∉ b)
    (hPart : part <+: a ++ b) : part <+: a := by
  rcases hPart with ⟨rest, hRest⟩
  rcases List.append_eq_append_iff.mp hRest with ⟨more, hA, -⟩ | ⟨extra, hOver, hOverB⟩
  · exact ⟨more, hA.symm⟩
  · cases extra with
    | nil =>
      rw [List.append_nil] at hOver
      exact ⟨[], by rw [hOver, List.append_nil]⟩
    | cons e extra =>
      rw [hOver, List.getLast?_append_of_ne_nil _ (List.cons_ne_nil e extra)] at hLast
      apply absurd _ hB
      rw [hOverB]
      exact List.mem_append_left _ (List.mem_of_mem_getLast? hLast)

theorem infix_of_infix_append {d : Char} (hLast : part.getLast? = some d) (hB : d ∉ b)
    (hPart : part <:+: a ++ b) : part <:+: a := by
  rcases hPart with ⟨before, after, hSplit⟩
  have hBoth : (before ++ part).getLast? = some d := by
    rw [List.getLast?_append, hLast]
    rfl
  have hFront := prefix_of_prefix_append hBoth hB ⟨after, hSplit⟩
  exact (List.suffix_append before part).isInfix.trans hFront.isInfix

theorem contains_iff_isInfix : contains s part = true ↔ part <:+: s := by
  rw [contains, List.any_eq_true]
  constructor
  · intro hTail
    rcases hTail with ⟨tail, hTail, hFront⟩
    exact (List.isPrefixOf_iff_prefix.mp hFront).isInfix.trans
      ((List.mem_tails _ _).mp hTail).isInfix
  · intro hInfix
    rcases hInfix with ⟨before, after, rfl⟩
    refine ⟨part ++ after, ?_, ?_⟩
    · rw [List.mem_tails, List.append_assoc]
      exact List.suffix_append _ _
    · exact List.isPrefixOf_iff_prefix.mpr (List.prefix_append _ _)

theorem not_contains_of_infix {t : Text} (hInfix : t <:+: s) (hNone : contains s part = false) :
    contains t part = false := by
  rw [Bool.eq_false_iff, ne_eq, contains_iff_isInfix] at hNone ⊢
  intro hPart
  exact hNone (hPart.trans hInfix)

theorem trimFunc_infix (p : Char → Bool) (s : Text) : trimFunc p s <:+: s :=
  (trimFunc_isPrefix p s).isInfix.trans (List.dropWhile_suffix p).isInfix

theorem exists_first_occurrence (hPart : part ≠ []) (hContains : contains s part = true) :
    ∃ before after, s = before ++ (part ++ after) ∧ contains before part = false := by
  induction s with
  | nil =>
    rw [contains_iff_isInfix, List.infix_nil] at hContains
    exact absurd hContains hPart
  | cons c s ih =>
    by_cases hFront : part <+: c :: s
    · rcases hFront with ⟨after, hAfter⟩
      refine ⟨[], after, hAfter.symm, ?_⟩
      rw [Bool.eq_false_iff, ne_eq, contains_iff_isInfix, List.infix_nil]
      exact hPart
    · rw [contains_iff_isInfix, List.infix_cons_iff] at hContains
      rcases ih (contains_iff_isInfix.mpr (hContains.resolve_left hFront)) with
        ⟨before, after, hSplit, hNone⟩
      refine ⟨c :: before, after, by rw [hSplit]; rfl, ?_⟩
      rw [Bool.eq_false_iff, ne_eq, contains_iff_isInfix,
        List.infix_cons_iff, ← contains_iff_isInfix, hNone]
      intro hOr
      rcases hOr with hBefore | hFalse
      · apply hFront
        rw [hSplit, ← List.cons_append]
        exact hBefore.trans (List.prefix_append _ _)
      · cases hFalse

theorem mem_of_contains (hContains : contains s part = true) (hC : c ∈ part) : c ∈ s :=
  (contains_iff_isInfix.mp hContains).subset hC

theorem contains_append (before part after : Text) :
    contains (before ++ (part ++ after)) part = true := by
  rw [contains_iff_isInfix, ← List.append_assoc]
  exact List.infix_append _ _ _

@[simp] theorem trimStart_append (front s : Text) : trimStart (front ++ s) front = s := by
  have hFront : front.isPrefixOf (front ++ s) = true :=
    List.isPrefixOf_iff_prefix.mpr (List.prefix_append _ _)
  rw [trimStart, if_pos hFront, List.drop_left]

----
-- Sorted Sets Of Texts
----

/- Sort by code point, which on valid UTF-8 is the byte order Go compares strings by. -/
def sort (values : List Text) : List Text := values.insertionSort (fun a b => a ≤ b)

/- Sort by a key; equal keys keep their order. -/
def sortBy {α : Type} (key : α → Text) (values : List α) : List α :=
  values.insertionSort (fun a b => key a ≤ key b)

/- Drop empty texts and repetitions, then sort. -/
def sortUnique (values : List Text) : List Text := sort (values.filter (fun v => v ≠ [])).dedup

variable {values : List Text}

theorem mem_sort {v : Text} : v ∈ sort values ↔ v ∈ values := by exact List.mem_insertionSort _

theorem length_sort (values : List Text) : (sort values).length = values.length :=
  (List.perm_insertionSort _ values).length_eq

theorem nodup_sort : (sort values).Nodup ↔ values.Nodup :=
  (List.perm_insertionSort _ values).nodup_iff

theorem sort_eq_of_perm {values' : List Text} (hPerm : values.Perm values') :
    sort values = sort values' := by
  have hSorted : ∀ vs : List Text, (sort vs).Pairwise (fun a b => a ≤ b) :=
    fun vs => List.pairwise_insertionSort _ vs
  have hSame : (sort values).Perm (sort values') :=
    ((List.perm_insertionSort _ values).trans hPerm).trans (List.perm_insertionSort _ values').symm
  exact hSame.eq_of_pairwise' (hSorted _) (hSorted _)

theorem mem_sortUnique {v : Text} : v ∈ sortUnique values ↔ v ∈ values ∧ v ≠ [] := by
  unfold sortUnique
  rw [mem_sort, List.mem_dedup, List.mem_filter]
  simp

end Text

----
-- Digests
----

/- The hexadecimal SHA-256 digest of a text. -/
structure Digest where
  hex : Text → Text
  length_hex : ∀ s, (hex s).length = 64
  digits : ∀ s, ∀ c ∈ hex s, c ∈ ("0123456789abcdef" : String).toList

/- A stand-in digest: the text's own hexadecimal digits. -/
def paddedDigest : Digest where
  hex s := ((s.filter
      (fun c => c ∈ ("0123456789abcdef" : String).toList)) ++ List.replicate 64 '0').take 64
  length_hex s := by
    rw [List.length_take, List.length_append, List.length_replicate]
    omega
  digits s c hC := by
    rcases List.mem_append.mp (List.mem_of_mem_take hC) with hOwn | hPad
    · simpa using (List.mem_filter.mp hOwn).2
    · rw [List.eq_of_mem_replicate hPad]
      decide
