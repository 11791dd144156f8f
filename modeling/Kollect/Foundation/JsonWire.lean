import Kollect.Foundation.JsonText

/-
  The wire form of JSON values: its length, what it depends on, and what can be told from it.

  Key theorems include:
    * `Json.encode_append_inj`
    * `Json.encode_arr_inj`
-/

namespace Json

----
-- Lengths
----

/- A member with its colon and the comma or brace after it. -/
def memberSize (member : Text × Json) : Nat :=
  Text.byteLen (quote member.1) + Text.byteLen (encode member.2) + 2

@[simp]
theorem byteLen_cons (c : Char) (s : Text) :
    Text.byteLen (c :: s) = c.utf8Size + Text.byteLen s := by
  simp [Text.byteLen]

@[simp]
theorem byteLen_nil : Text.byteLen [] = 0 := rfl

theorem byteLen_encodeElements (x : Json) (xs : List Json) :
    Text.byteLen (encodeElements (x :: xs)) =
      ((x :: xs).map fun x => Text.byteLen (encode x) + 1).sum := by
  induction xs generalizing x with
  | nil => simp [encodeElements, Char.utf8Size]
  | cons y ys ih =>
    have hComma : Char.utf8Size ',' = 1 := by decide
    rw [encodeElements, Text.byteLen_append, byteLen_cons, ih, hComma]
    simp only [List.map_cons, List.sum_cons]
    omega

theorem byteLen_encodeMembers (member : Text × Json) (fields : List (Text × Json)) :
    Text.byteLen (encodeMembers (member :: fields)) = ((member :: fields).map memberSize).sum := by
  have hColon : Char.utf8Size ':' = 1 := by decide
  induction fields generalizing member with
  | nil =>
    rcases member with ⟨k, x⟩
    have hBrace : Char.utf8Size '}' = 1 := by decide
    simp only [encodeMembers, Text.byteLen_append, byteLen_cons,
      byteLen_nil, hColon, hBrace, memberSize, List.map_cons,
      List.map_nil, List.sum_cons, List.sum_nil]
    omega
  | cons next fields ih =>
    rcases member with ⟨k, x⟩
    have hComma : Char.utf8Size ',' = 1 := by decide
    rw [encodeMembers, Text.byteLen_append, Text.byteLen_append,
      byteLen_cons, byteLen_cons, ih, hColon, hComma]
    simp only [List.map_cons, List.sum_cons, memberSize]
    omega

theorem byteLen_encode_arr {xs : List Json} (hNe : xs ≠ []) :
    Text.byteLen (encode (.arr xs)) = 1 + (xs.map fun x => Text.byteLen (encode x) + 1).sum := by
  have hBracket : Char.utf8Size '[' = 1 := by decide
  cases xs with
  | nil => exact absurd rfl hNe
  | cons x xs => rw [encode, byteLen_cons, hBracket, byteLen_encodeElements]

theorem byteLen_encode_obj {fields : List (Text × Json)} (hNe : fields ≠ []) :
    Text.byteLen (encode (.obj fields)) = 1 + (fields.map memberSize).sum := by
  have hBrace : Char.utf8Size '{' = 1 := by decide
  cases fields with
  | nil => exact absurd rfl hNe
  | cons member fields => rw [encode, byteLen_cons, hBrace, byteLen_encodeMembers]

theorem byteLen_eq_length {s : Text} (hAscii : ∀ c ∈ s, c.utf8Size = 1) :
    Text.byteLen s = s.length := by
  induction s with
  | nil => rfl
  | cons c s ih =>
    rw [List.forall_mem_cons] at hAscii
    rw [byteLen_cons, hAscii.1, ih hAscii.2, List.length_cons]
    omega

theorem utf8Size_of_isDigit {c : Char} (hC : c.isDigit = true) : c.utf8Size = 1 := by
  rw [Char.isDigit, Bool.and_eq_true, decide_eq_true_iff, decide_eq_true_iff] at hC
  rw [Char.utf8Size_eq_one_iff]
  exact UInt32.le_trans hC.2 (by decide)

theorem length_toDigits_mono {m n : Nat} (hLe : m ≤ n) :
    (Nat.toDigits 10 m).length ≤ (Nat.toDigits 10 n).length := by
  induction n using Nat.strongRecOn generalizing m with
  | _ n ih =>
    rw [Nat.toDigits_eq_if (by decide), @Nat.toDigits_eq_if 10 n (by decide)]
    by_cases hSmall : m < 10
    · rw [if_pos hSmall]
      split_ifs
      · exact Nat.le_refl _
      · simp
    · have hBig : ¬ n < 10 := by omega
      rw [if_neg hSmall, if_neg hBig, List.length_append, List.length_append]
      exact Nat.add_le_add_right (ih (n / 10) (by omega) (by omega)) 1

theorem byteLen_encode_nat (n : Nat) :
    Text.byteLen (encode (.int n)) = (Nat.toDigits 10 n).length := by
  have hNonneg : ¬ (n : Int) < 0 := by omega
  rw [encode, Text.ofInt, if_neg hNonneg, Int.natAbs_natCast]
  exact byteLen_eq_length fun c hC => utf8Size_of_isDigit (isDigit_toDigits n c hC)

theorem byteLen_encode_nat_mono {m n : Nat} (hLe : m ≤ n) :
    Text.byteLen (encode (.int m)) ≤ Text.byteLen (encode (.int n)) := by
  rw [byteLen_encode_nat, byteLen_encode_nat]
  exact length_toDigits_mono hLe

theorem unsupported?_arr {xs : List Json} :
    (Json.arr xs).unsupported? = none ↔ ∀ x ∈ xs, x.unsupported? = none := by
  rw [unsupported?]
  induction xs with
  | nil => exact iff_of_true rfl (List.forall_mem_nil _)
  | cons x xs ih => rw [unsupportedElement?, Option.or_eq_none_iff, ih, List.forall_mem_cons]

theorem unsupported?_obj {fields : List (Text × Json)} :
    (Json.obj fields).unsupported? = none ↔ ∀ field ∈ fields, field.2.unsupported? = none := by
  rw [unsupported?]
  induction fields with
  | nil => exact iff_of_true rfl (List.forall_mem_nil _)
  | cons field fields ih => rw [unsupportedMember?, Option.or_eq_none_iff, ih, List.forall_mem_cons]

----
-- Equal Texts
----

theorem encodeElements_congr {xs ys : List Json} (hSame : xs.map encode = ys.map encode) :
    encodeElements xs = encodeElements ys := by
  induction xs generalizing ys with
  | nil =>
    cases ys with
    | nil => rfl
    | cons y ys => cases hSame
  | cons x xs ih =>
    cases ys with
    | nil => cases hSame
    | cons y ys =>
      rw [List.map_cons, List.map_cons, List.cons.injEq] at hSame
      have hTail := ih hSame.2
      cases xs with
      | nil =>
        cases ys with
        | nil => rw [encodeElements, encodeElements, hSame.1]
        | cons y' ys => cases hSame.2
      | cons x' xs =>
        cases ys with
        | nil => cases hSame.2
        | cons y' ys => rw [encodeElements, encodeElements, hSame.1, hTail]

theorem encode_arr_congr {xs ys : List Json} (hSame : xs.map encode = ys.map encode) :
    encode (.arr xs) = encode (.arr ys) := by
  rw [encode, encode, encodeElements_congr hSame]

theorem encodeMembers_append_congr (front : List (Text × Json)) (k : Text) {x y : Json}
    (hSame : encode x = encode y) :
    encodeMembers (front ++ [(k, x)]) = encodeMembers (front ++ [(k, y)]) := by
  induction front with
  | nil => simp only [List.nil_append, encodeMembers, hSame]
  | cons member front ih =>
    rcases member with ⟨k', v⟩
    cases front with
    | nil => simp only [List.cons_append, List.nil_append, encodeMembers, hSame]
    | cons next front =>
      simp only [List.cons_append] at ih ⊢
      rw [encodeMembers, encodeMembers, ih]

theorem encode_obj_congr (front : List (Text × Json)) (k : Text) {x y : Json}
    (hSame : encode x = encode y) :
    encode (.obj (front ++ [(k, x)])) = encode (.obj (front ++ [(k, y)])) := by
  rw [encode, encode, encodeMembers_append_congr front k hSame]

----
-- What Is Told From A Text
----

theorem quote_append_inj {s s' rest rest' : Text} (hEq : quote s ++ rest = quote s' ++ rest') :
    s = s' ∧ rest = rest' := by
  rw [quote_append, quote_append, List.cons.injEq] at hEq
  have hScan := congrArg scanString hEq.2
  rw [scanString_quote, scanString_quote, Option.some.injEq, Prod.mk.injEq] at hScan
  exact hScan

theorem encodeMembers_str_inj {k k' v v' : Text} {next next' : Text × Json}
    {fields fields' : List (Text × Json)}
    (hEq : encodeMembers ((k, .str v) :: next :: fields) =
      encodeMembers ((k', .str v') :: next' :: fields')) :
    k = k' ∧ v = v' ∧ encodeMembers (next :: fields) = encodeMembers (next' :: fields') := by
  rw [encodeMembers, encodeMembers, List.append_assoc, List.append_assoc] at hEq
  rcases quote_append_inj hEq with ⟨hKey, hRest⟩
  rw [List.cons_append, List.cons_append, List.cons.injEq, encode, encode] at hRest
  rcases quote_append_inj hRest.2 with ⟨hValue, hTail⟩
  exact ⟨hKey, hValue, (List.cons.inj hTail).2⟩

----
-- Where A Value Ends
----

/- A rune of a number, of a truth value or of null. -/
def plainRune (c : Char) : Bool := c.isAlphanum || c = '+' || c = '-' || c = '.'

mutual

/- The floats of a value are written with plain runes. -/
def PlainFloats : Json → Prop
  | .float f => f ≠ [] ∧ ∀ c ∈ f, plainRune c = true
  | .arr xs => PlainFloatElements xs
  | .obj fields => PlainFloatMembers fields
  | _ => True

def PlainFloatElements : List Json → Prop
  | [] => True
  | x :: xs => PlainFloats x ∧ PlainFloatElements xs

def PlainFloatMembers : List (Text × Json) → Prop
  | [] => True
  | (_, x) :: fields => PlainFloats x ∧ PlainFloatMembers fields

end

/- A text of plain runes only. -/
def PlainText (s : Text) : Prop := s ≠ [] ∧ ∀ c ∈ s, plainRune c = true

theorem plainText_of_all {s : Text} (hNe : s ≠ []) (hAll : s.all plainRune = true) : PlainText s :=
  ⟨hNe, List.all_eq_true.mp hAll⟩

theorem Delimited.not_plain {c : Char} {rest : Text} (hRest : Delimited (c :: rest)) :
    plainRune c = false := by
  have hC := hRest c rfl
  simp only [isJsonSpace, Bool.decide_or, Bool.or_eq_true, decide_eq_true_eq] at hC
  rcases hC with rfl | rfl | rfl | rfl | rfl | rfl | rfl <;>
    decide

theorem PlainText.append_inj {s s' rest rest' : Text} (hPlain : PlainText s)
    (hPlain' : PlainText s') (hRest : Delimited rest)
    (hRest' : Delimited rest') (hEq : s ++ rest = s' ++ rest') : s = s' ∧ rest = rest' := by
  have hTake : ∀ {s rest : Text}, PlainText s → Delimited rest →
      (s ++ rest).takeWhile plainRune = s := by
    intro s rest hPlain hRest
    rw [List.takeWhile_append_of_pos hPlain.2]
    cases rest with
    | nil => rw [List.takeWhile_nil, List.append_nil]
    | cons c rest =>
      rw [List.takeWhile_cons_of_neg (by rw [hRest.not_plain]; exact Bool.false_ne_true),
        List.append_nil]
  have hSame : s = s' := by rw [← hTake hPlain hRest, hEq, hTake hPlain' hRest']
  subst hSame
  exact ⟨rfl, List.append_cancel_left hEq⟩

theorem plainRune_of_isDigit {c : Char} (hC : c.isDigit = true) : plainRune c = true := by
  unfold plainRune Char.isAlphanum
  rw [hC, Bool.or_true]
  rfl

theorem plainText_ofInt (n : Int) : PlainText (Text.ofInt n) := by
  have hDigits : ∀ c ∈ Nat.toDigits 10 n.natAbs, plainRune c = true :=
    fun c hC => plainRune_of_isDigit (isDigit_toDigits _ c hC)
  unfold Text.ofInt
  split_ifs
  · exact ⟨List.cons_ne_nil _ _, List.forall_mem_cons.mpr ⟨by decide, hDigits⟩⟩
  · exact ⟨Nat.toDigits_ne_nil, hDigits⟩

/- The rune a value starts with, if it is not a plain one. -/
def opener : Json → Option Char
  | .str _ => some '"'
  | .arr _ => some '['
  | .obj _ => some '{'
  | _ => none

theorem plainText_encode {v : Json} (hV : v.PlainFloats) (hNone : v.opener = none) :
    PlainText v.encode := by
  cases v with
  | null =>
    rw [encode]
    exact plainText_of_all (List.cons_ne_nil _ _) rfl
  | bool b =>
    cases b with
    | true | false =>
      rw [encode]
      exact plainText_of_all (List.cons_ne_nil _ _) rfl
  | int n =>
    rw [encode]
    exact plainText_ofInt n
  | float f =>
    rw [PlainFloats] at hV
    rw [encode]
    exact hV
  | str | arr | obj => cases hNone

theorem encode_str (s : Text) : (str s).encode = quote s := by rw [encode]

theorem encode_arr (xs : List Json) : (arr xs).encode = '[' :: encodeElements xs := by rw [encode]

theorem encode_obj (fields : List (Text × Json)) :
    (obj fields).encode = '{' :: encodeMembers fields := by
  rw [encode]

/- The first rune tells the ways of writing apart. -/
theorem opener_eq_head {v : Json} (hV : v.PlainFloats) (rest : Text) :
    v.opener = (v.encode ++ rest).head?.filter fun c => !plainRune c := by
  cases v with
  | str s =>
    rw [encode_str, quote_append]
    rfl
  | arr xs =>
    rw [encode_arr]
    rfl
  | obj fields =>
    rw [encode_obj]
    rfl
  | null | bool | int | float =>
    have hPlain := plainText_encode hV rfl
    rcases List.exists_cons_of_ne_nil hPlain.1 with ⟨c, text, hText⟩
    have hC := hPlain.2 c (hText ▸ List.mem_cons_self)
    rw [hText]
    exact (Option.filter_some_neg (by rw [hC]; rfl)).symm

theorem opener_eq {v w : Json} {rest rest' : Text} (hV : v.PlainFloats) (hW : w.PlainFloats)
    (hEq : v.encode ++ rest = w.encode ++ rest') : v.opener = w.opener := by
  rw [opener_eq_head hV rest, hEq, ← opener_eq_head hW rest']

/- A value does not start with the bracket after its list. -/
theorem encode_ne_bracket {v : Json} (hV : v.PlainFloats) (rest tail : Text) :
    v.encode ++ rest ≠ ']' :: tail := by
  intro hEq
  have hOpener := opener_eq_head hV rest
  rw [hEq] at hOpener
  cases v <;> cases hOpener

theorem plain_append_inj {v w : Json} {rest rest' : Text} (hNone : v.opener = none)
    (hV : v.PlainFloats) (hW : w.PlainFloats) (hRest : Delimited rest) (hRest' : Delimited rest')
    (hEq : v.encode ++ rest = w.encode ++ rest') : v.encode = w.encode ∧ rest = rest' := by
  have hNone' : w.opener = none := (opener_eq hV hW hEq).symm.trans hNone
  exact (plainText_encode hV hNone).append_inj (plainText_encode hW hNone') hRest hRest' hEq

/- What follows an element, and what follows a member. -/
def elementsTail : List Json → Text
  | [] => [']']
  | x :: xs => ',' :: encodeElements (x :: xs)

def membersTail : List (Text × Json) → Text
  | [] => ['}']
  | member :: fields => ',' :: encodeMembers (member :: fields)

theorem encodeElements_cons (x : Json) (xs : List Json) :
    encodeElements (x :: xs) = x.encode ++ elementsTail xs := by
  cases xs <;> rw [encodeElements, elementsTail]

theorem encodeMembers_cons (k : Text) (x : Json) (fields : List (Text × Json)) :
    encodeMembers ((k, x) :: fields) = quote k ++ ':' :: (x.encode ++ membersTail fields) := by
  cases fields <;>
    rw [encodeMembers, membersTail, List.append_assoc, List.cons_append]

theorem delimited_elementsTail (xs : List Json) (rest : Text) :
    Delimited (elementsTail xs ++ rest) := by
  cases xs with
  | nil => exact delimited_cons (.inr (.inl rfl)) _
  | cons x xs => exact delimited_cons (.inl rfl) _

theorem delimited_membersTail (fields : List (Text × Json)) (rest : Text) :
    Delimited (membersTail fields ++ rest) := by
  cases fields with
  | nil => exact delimited_cons (.inr (.inr rfl)) _
  | cons member fields => exact delimited_cons (.inl rfl) _

mutual

theorem encode_append_inj : ∀ (v w : Json) {rest rest' : Text}, v.PlainFloats → w.PlainFloats →
      Delimited rest → Delimited rest' →
      v.encode ++ rest = w.encode ++ rest' → v.encode = w.encode ∧ rest = rest'
  | .null, _, _, _, hV, hW, hRest, hRest', hEq => plain_append_inj rfl hV hW hRest hRest' hEq
  | .bool _, _, _, _, hV, hW, hRest, hRest', hEq => plain_append_inj rfl hV hW hRest hRest' hEq
  | .int _, _, _, _, hV, hW, hRest, hRest', hEq => plain_append_inj rfl hV hW hRest hRest' hEq
  | .float _, _, _, _, hV, hW, hRest, hRest', hEq => plain_append_inj rfl hV hW hRest hRest' hEq
  | .str s, w, _, _, hV, hW, _, _, hEq => by
    cases w with
    | str s' =>
      rw [encode_str, encode_str] at hEq ⊢
      rcases quote_append_inj hEq with ⟨hSame, hTail⟩
      exact ⟨congrArg quote hSame, hTail⟩
    | null | bool | int | float | arr | obj => cases opener_eq hV hW hEq
  | .arr xs, w, _, _, hV, hW, _, _, hEq => by
    cases w with
    | arr ys =>
      rw [encode_arr, encode_arr, List.cons_append, List.cons_append] at hEq
      rw [PlainFloats] at hV hW
      rcases encodeElements_append_inj xs ys hV hW (List.cons.inj hEq).2 with ⟨hSame, hTail⟩
      exact ⟨encode_arr_congr hSame, hTail⟩
    | null | bool | int | float | str | obj => cases opener_eq hV hW hEq
  | .obj fields, w, _, _, hV, hW, _, _, hEq => by
    cases w with
    | obj fields' =>
      rw [encode_obj, encode_obj, List.cons_append, List.cons_append] at hEq
      rw [PlainFloats] at hV hW
      rcases encodeMembers_append_inj fields fields' hV hW (List.cons.inj hEq).2 with ⟨hSame, hTail⟩
      exact ⟨by rw [encode_obj, encode_obj, hSame], hTail⟩
    | null | bool | int | float | str | arr => cases opener_eq hV hW hEq

theorem encodeElements_append_inj :
    ∀ (xs ys : List Json) {rest rest' : Text}, PlainFloatElements xs → PlainFloatElements ys →
      encodeElements xs ++ rest = encodeElements ys ++ rest' →
        xs.map encode = ys.map encode ∧ rest = rest'
  | [], [], _, _, _, _, hEq => by
    rw [encodeElements] at hEq
    exact ⟨rfl, (List.cons.inj hEq).2⟩
  | [], y :: ys, _, _, _, hYs, hEq => by
    rw [PlainFloatElements] at hYs
    rw [encodeElements_cons, List.append_assoc] at hEq
    exact absurd hEq.symm (encode_ne_bracket hYs.1 _ _)
  | x :: xs, [], _, _, hXs, _, hEq => by
    rw [PlainFloatElements] at hXs
    rw [encodeElements_cons, List.append_assoc] at hEq
    exact absurd hEq (encode_ne_bracket hXs.1 _ _)
  | x :: xs, y :: ys, _, _, hXs, hYs, hEq => by
    rw [PlainFloatElements] at hXs hYs
    rw [encodeElements_cons, encodeElements_cons, List.append_assoc, List.append_assoc] at hEq
    rcases encode_append_inj x y hXs.1 hYs.1 (delimited_elementsTail xs _)
      (delimited_elementsTail ys _) hEq with ⟨hHead, hTail⟩
    rw [List.map_cons, List.map_cons, hHead]
    cases xs with
    | nil =>
      cases ys with
      | nil => exact ⟨rfl, (List.cons.inj hTail).2⟩
      | cons y' ys => exact absurd (List.cons.inj hTail).1 (by decide)
    | cons x' xs =>
      cases ys with
      | nil => exact absurd (List.cons.inj hTail).1 (by decide)
      | cons y' ys =>
        rcases encodeElements_append_inj (x' :: xs) (y' :: ys) hXs.2 hYs.2 (List.cons.inj hTail).2
          with ⟨hRest, hEnd⟩
        exact ⟨by rw [hRest], hEnd⟩

theorem encodeMembers_append_inj : ∀ (fields fields' : List (Text × Json)) {rest rest' : Text},
      PlainFloatMembers fields → PlainFloatMembers fields' → encodeMembers fields ++ rest =
          encodeMembers fields' ++ rest' →
        encodeMembers fields = encodeMembers fields' ∧ rest = rest'
  | [], [], _, _, _, _, hEq => by
    rw [encodeMembers] at hEq
    exact ⟨rfl, (List.cons.inj hEq).2⟩
  | [], (k, y) :: fields', _, _, _, _, hEq => by
    rw [encodeMembers_cons, List.append_assoc, quote_append] at hEq
    exact absurd (List.cons.inj hEq).1 (by decide)
  | (k, x) :: fields, [], _, _, _, _, hEq => by
    rw [encodeMembers_cons, List.append_assoc, quote_append] at hEq
    exact absurd (List.cons.inj hEq).1 (by decide)
  | (k, x) :: fields, (k', y) :: fields', _, _, hFields,
      hFields', hEq => by
      rw [PlainFloatMembers] at hFields hFields'
      rw [encodeMembers_cons, encodeMembers_cons, List.append_assoc, List.append_assoc] at hEq
      rcases quote_append_inj hEq with ⟨hKey, hValue⟩
      rw [List.cons_append, List.cons_append, List.append_assoc, List.append_assoc] at hValue
      rcases encode_append_inj x y hFields.1 hFields'.1 (delimited_membersTail fields _)
        (delimited_membersTail fields' _) (List.cons.inj hValue).2 with ⟨hHead, hTail⟩
      rw [encodeMembers_cons, encodeMembers_cons, hKey, hHead]
      cases fields with
      | nil =>
        cases fields' with
        | nil => exact ⟨rfl, (List.cons.inj hTail).2⟩
        | cons next' fields' => exact absurd (List.cons.inj hTail).1 (by decide)
      | cons next fields =>
        cases fields' with
        | nil => exact absurd (List.cons.inj hTail).1 (by decide)
        | cons next' fields' =>
          rcases encodeMembers_append_inj (next :: fields) (next' :: fields') hFields.2 hFields'.2
            (List.cons.inj hTail).2 with ⟨hRest, hEnd⟩
          exact ⟨by rw [membersTail, membersTail, hRest], hEnd⟩

end

theorem plainFloatElements_of_forall {xs : List Json} (hXs : ∀ x ∈ xs, x.PlainFloats) :
    PlainFloatElements xs := by
  induction xs with
  | nil => trivial
  | cons x xs ih =>
    rw [List.forall_mem_cons] at hXs
    exact ⟨hXs.1, ih hXs.2⟩

theorem encode_arr_inj {xs ys : List Json} (hXs : ∀ x ∈ xs, x.PlainFloats)
    (hYs : ∀ y ∈ ys, y.PlainFloats) (hEq : (arr xs).encode = (arr ys).encode) :
    xs.map encode = ys.map encode := by
  rw [encode_arr, encode_arr, List.cons.injEq] at hEq
  have hText : encodeElements xs ++ [] = encodeElements ys ++ [] := congrArg (· ++ []) hEq.2
  exact (encodeElements_append_inj xs ys (plainFloatElements_of_forall hXs)
    (plainFloatElements_of_forall hYs) hText).1

end Json
