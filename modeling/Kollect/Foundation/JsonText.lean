import Kollect.Foundation.Json

/-
  JSON text: the compact form `encoding/json` writes and the grammar it reads.

  `Json.encode` escapes the runes that the encoder escapes with HTML escaping on. `Json.scan` reads
  the first value of a text and gives back what follows it, so that a caller can refuse trailing
  data. A number literal with a fraction or an exponent is kept as written.

  Key theorems include:
    * `Json.scanString_quote`
    * `Json.scan_encode`
-/

namespace Json

----
-- Writing
----

def hexDigit (n : Nat) : Char :=
  Nat.digitChar n

/- The runes with a one-letter escape, and its letter. -/
def namedEscapes : List (Char × Char) :=
  [('"', '"'), ('\\', '\\'), ('\x08', 'b'), ('\x0c', 'f'), ('\n', 'n'), ('\r', 'r'), ('\t', 't')]

/-
  One rune inside quotes. The last three kinds of escaped runes are unsafe in HTML or in JavaScript
  source.
-/
def escapeRune (c : Char) : Text :=
  match namedEscapes.lookup c with
  | some letter => ['\\', letter]
  | none =>
    if c.toNat < 0x20 ∨ c = '<' ∨ c = '>' ∨ c = '&' then
      ['\\', 'u', '0', '0', hexDigit (c.toNat / 16), hexDigit (c.toNat % 16)]
    else if c = '\u2028' then
      ['\\', 'u', '2', '0', '2', '8']
    else if c = '\u2029' then
      ['\\', 'u', '2', '0', '2', '9']
    else [c]

def quote (s : Text) : Text :=
  '"' :: s.flatMap escapeRune ++ ['"']

mutual

def encode : Json → Text
  | null => "null"
  | bool true => "true"
  | bool false => "false"
  | int n => Text.ofInt n
  | float f => f
  | str s => quote s
  | arr xs => '[' :: encodeElements xs
  | obj fields => '{' :: encodeMembers fields

def encodeElements : List Json → Text
  | [] => [']']
  | [x] => encode x ++ [']']
  | x :: y :: xs =>
    encode x ++ ',' :: encodeElements (y :: xs)

def encodeMembers : List (Text × Json) → Text
  | [] => ['}']
  | [(k, x)] => quote k ++ ':' :: encode x ++ ['}']
  | (k, x) :: member :: fields =>
    quote k ++ ':' :: encode x ++ ',' :: encodeMembers (member :: fields)

end

/- A new line at a depth of two spaces a level. -/
def newLine (depth : Nat) : Text :=
  '\n' :: List.replicate (2 * depth) ' '

mutual

/- The text of `json.MarshalIndent` with two spaces. -/
def encodeIndent (depth : Nat) : Json → Text
  | arr (x :: xs) =>
    '[' :: indentElements (depth + 1) (x :: xs) ++ newLine depth ++ [']']
  | obj (member :: fields) =>
    '{' :: indentMembers (depth + 1) (member :: fields) ++ newLine depth ++ ['}']
  | arr [] => "[]"
  | obj [] => ['{', '}']
  | null => "null"
  | bool true => "true"
  | bool false => "false"
  | int n => Text.ofInt n
  | float f => f
  | str s => quote s

def indentElements (depth : Nat) : List Json → Text
  | [] => []
  | [x] => newLine depth ++ encodeIndent depth x
  | x :: y :: xs =>
    newLine depth ++ encodeIndent depth x ++ ',' :: indentElements depth (y :: xs)

def indentMembers (depth : Nat) : List (Text × Json) → Text
  | [] => []
  | [(k, x)] =>
    newLine depth ++ quote k ++ ':' :: ' ' :: encodeIndent depth x
  | (k, x) :: member :: fields =>
    newLine depth ++ quote k ++ ':' :: ' ' ::
      encodeIndent depth x ++ ',' :: indentMembers depth (member :: fields)

end

/- Floats that have no wire form. -/
def nonFinite : List Text :=
  ["NaN".toList, "+Inf".toList, "-Inf".toList]

mutual

/- The first number in a value that cannot be written. -/
def unsupported? : Json → Option Text
  | .float f => if f ∈ nonFinite then some f else none
  | .arr xs => unsupportedElement? xs
  | .obj fields => unsupportedMember? fields
  | _ => none

def unsupportedElement? : List Json → Option Text
  | [] => none
  | x :: xs => (unsupported? x).or (unsupportedElement? xs)

def unsupportedMember? : List (Text × Json) → Option Text
  | [] => none
  | (_, x) :: fields =>
    (unsupported? x).or (unsupportedMember? fields)

end

----
-- Reading Strings
----

/- A rune as it stands, or a `\u` escape's code unit. -/
inductive CodeUnit where
  | rune (c : Char)
  | escape (n : Nat)
deriving DecidableEq, Repr

def hexValue (c : Char) : Option Nat :=
  if '0' ≤ c ∧ c ≤ '9' then some (c.toNat - '0'.toNat)
  else if 'a' ≤ c ∧ c ≤ 'f' then
    some (c.toNat - 'a'.toNat + 10)
  else if 'A' ≤ c ∧ c ≤ 'F' then
    some (c.toNat - 'A'.toNat + 10)
  else none

def hexValue4 (a b c d : Char) : Option Nat := do
  let a ← hexValue a
  let b ← hexValue b
  let c ← hexValue c
  let d ← hexValue d
  pure (((a * 16 + b) * 16 + c) * 16 + d)

/- The rune a one-letter escape stands for. -/
def simpleEscape (c : Char) : Option Char :=
  if c = '"' ∨ c = '\\' ∨ c = '/' then some c
  else if c = 'b' then some '\x08'
  else if c = 'f' then some '\x0c'
  else if c = 'n' then some '\n'
  else if c = 'r' then some '\r'
  else if c = 't' then some '\t'
  else none

/- The units up to the closing quote, and what follows it. -/
def scanUnits : Text → Option (List CodeUnit × Text)
  | [] => none
  | '"' :: rest => some ([], rest)
  | '\\' :: 'u' :: a :: b :: c :: d :: rest => do
      let n ← hexValue4 a b c d
      let (units, rest) ← scanUnits rest
      pure (.escape n :: units, rest)
  | '\\' :: e :: rest => do
      let c ← simpleEscape e
      let (units, rest) ← scanUnits rest
      pure (.rune c :: units, rest)
  | c :: rest =>
    if c.toNat < 0x20 ∨ c = '\\' then none
    else do
      let (units, rest) ← scanUnits rest
      pure (.rune c :: units, rest)

def isHighSurrogate (n : Nat) : Bool :=
  0xd800 ≤ n && n < 0xdc00

def isLowSurrogate (n : Nat) : Bool :=
  0xdc00 ≤ n && n < 0xe000

/- A lone surrogate becomes the replacement character. -/
def runeOfUnit (n : Nat) : Char :=
  if isHighSurrogate n || isLowSurrogate n then '\ufffd'
  else Char.ofNat n

/- Escaped surrogates that follow each other are one rune. -/
def joinUnits : List CodeUnit → Text
  | [] => []
  | .rune c :: units => c :: joinUnits units
  | .escape hi :: .escape lo :: units =>
    if isHighSurrogate hi && isLowSurrogate lo then
      Char.ofNat ((hi - 0xd800) * 0x400 + (lo - 0xdc00) + 0x10000) :: joinUnits units
    else runeOfUnit hi :: joinUnits (.escape lo :: units)
  | .escape n :: units => runeOfUnit n :: joinUnits units

def scanString (s : Text) : Option (Text × Text) := do
  let (units, rest) ← scanUnits s
  pure (joinUnits units, rest)

----
-- Reading Numbers
----

def scanDigits (s : Text) : Text × Text :=
  (s.takeWhile Char.isDigit, s.dropWhile Char.isDigit)

def scanFraction : Text → Option (Text × Text)
  | '.' :: s =>
    match scanDigits s with
    | ([], _) => none
    | (digits, rest) => some ('.' :: digits, rest)
  | s => some ([], s)

def scanExponent : Text → Option (Text × Text)
  | [] => some ([], [])
  | e :: s =>
    if e = 'e' ∨ e = 'E' then
      let sign := s.takeWhile (fun c => c = '+' ∨ c = '-')
      match scanDigits (s.drop sign.length) with
      | ([], _) => none
      | (digits, rest) =>
        if sign.length ≤ 1 then
          some (e :: sign ++ digits, rest)
        else none
    else some ([], e :: s)

/- The digits before a fraction carry no leading zero. -/
def wholeDigits (digits : Text) : Bool :=
  match digits with
  | [] => false
  | ['0'] => true
  | c :: _ => c ≠ '0'

def scanNumber (s : Text) : Option (Json × Text) :=
  let sign := s.takeWhile (fun c => c = '-')
  let (digits, afterDigits) := scanDigits (s.drop sign.length)
  if sign.length ≤ 1 ∧ wholeDigits digits then do
    let (fraction, afterFraction) ← scanFraction afterDigits
    let (exponent, rest) ← scanExponent afterFraction
    if fraction = [] ∧ exponent = [] then
      let n := Nat.ofDigitChars 10 digits 0
      pure (.int (if sign = [] then n else -n), rest)
    else
      pure (.float (sign ++ digits ++ fraction ++ exponent), rest)
  else none

----
-- Reading Values
----

def isJsonSpace (c : Char) : Bool :=
  c = ' ' ∨ c = '\t' ∨ c = '\r' ∨ c = '\n'

def skipSpace (s : Text) : Text :=
  s.dropWhile isJsonSpace

mutual

/- The value at the front; nested values use less fuel. -/
def scanValue : Nat → Text → Option (Json × Text)
  | 0, _ => none
  | fuel + 1, s =>
    match skipSpace s with
    | 'n' :: 'u' :: 'l' :: 'l' :: rest => some (.null, rest)
    | 't' :: 'r' :: 'u' :: 'e' :: rest =>
      some (.bool true, rest)
    | 'f' :: 'a' :: 'l' :: 's' :: 'e' :: rest =>
      some (.bool false, rest)
    | '"' :: rest => do
        let (text, rest) ← scanString rest
        pure (.str text, rest)
    | '[' :: rest =>
      match skipSpace rest with
      | ']' :: rest => some (.arr [], rest)
      | rest => do
          let (xs, rest) ← scanElements fuel rest
          pure (.arr xs, rest)
    | '{' :: rest =>
      match skipSpace rest with
      | '}' :: rest => some (.obj [], rest)
      | rest => do
          let (fields, rest) ← scanMembers fuel rest
          pure (.obj fields, rest)
    | s => scanNumber s

def scanElements : Nat → Text → Option (List Json × Text)
  | 0, _ => none
  | fuel + 1, s => do
      let (x, rest) ← scanValue fuel s
      match skipSpace rest with
      | ']' :: rest => pure ([x], rest)
      | ',' :: rest => do
          let (xs, rest) ← scanElements fuel rest
          pure (x :: xs, rest)
      | _ => none

def scanMembers : Nat → Text → Option (List (Text × Json) × Text)
  | 0, _ => none
  | fuel + 1, s =>
    match skipSpace s with
    | '"' :: afterQuote => do
        let (k, afterKey) ← scanString afterQuote
        match skipSpace afterKey with
        | ':' :: afterColon => do
            let (x, rest) ← scanValue fuel afterColon
            match skipSpace rest with
            | '}' :: rest => pure ([(k, x)], rest)
            | ',' :: rest => do
                let (fields, rest) ← scanMembers fuel rest
                pure ((k, x) :: fields, rest)
            | _ => none
        | _ => none
    | _ => none

end

def scan (s : Text) : Option (Json × Text) :=
  scanValue (s.length + 1) s

----
-- Strings Round Trip
----

variable {n : Nat}

theorem hexValue_hexDigit (hN : n < 16) : hexValue (hexDigit n) = some n := by
  revert n
  decide

/- A unit that stands for the rune alone. -/
def CodeUnit.Denotes (u : CodeUnit) (c : Char) : Prop :=
  u = .rune c ∨ ∃ n, u = .escape n ∧ runeOfUnit n = c ∧ isHighSurrogate n = false

variable {c : Char}

theorem joinUnits_cons {u : CodeUnit} (hU : u.Denotes c) (units : List CodeUnit) :
    joinUnits (u :: units) = c :: joinUnits units := by
  rcases hU with rfl | ⟨n, rfl, rfl, hHigh⟩
  · rfl
  · rcases units with - | ⟨c' | lo, units⟩
    · rfl
    · rfl
    · simp [joinUnits, hHigh]

/- A code unit outside the surrogates is its own rune. -/
theorem denotes_escape (c : Char) (hBmp : c.toNat < 0xd800) :
    (CodeUnit.escape c.toNat).Denotes c := by
  have hHigh : isHighSurrogate c.toNat = false := by
    simp [isHighSurrogate, hBmp]
  have hLow : isLowSurrogate c.toNat = false := by
    simp only [isLowSurrogate, Bool.and_eq_false_imp, decide_eq_true_eq, decide_eq_false_iff_not]
    omega
  refine .inr ⟨c.toNat, rfl, ?_, hHigh⟩
  simp [runeOfUnit, hHigh, hLow, Char.ofNat_toNat]

theorem scanUnits_escape {a b d : Char} (hValue : hexValue4 a b c d = some n) (rest : Text) :
    scanUnits ('\\' :: 'u' :: a :: b :: c :: d :: rest) =
      (scanUnits rest).map (fun p => (.escape n :: p.1, p.2)) := by
  rw [scanUnits, hValue]
  cases scanUnits rest <;> rfl

theorem scanUnits_smallEscape (hN : n < 256) (rest : Text) : scanUnits
        ('\\' :: 'u' :: '0' :: '0' :: hexDigit (n / 16) :: hexDigit (n % 16) :: rest) =
      (scanUnits rest).map (fun p => (.escape n :: p.1, p.2)) := by
  have hHigh := hexValue_hexDigit (n := n / 16) (by omega)
  have hLow := hexValue_hexDigit (n := n % 16) (by omega)
  have hZero : hexValue '0' = some 0 := by decide
  apply scanUnits_escape
  simp only [hexValue4, hZero, hHigh, hLow, Option.bind_eq_bind, Option.bind_some, Option.pure_def,
    Option.some.injEq]
  omega

theorem scanUnits_simpleEscape {e : Char} (hE : simpleEscape e = some c) (rest : Text) :
    scanUnits ('\\' :: e :: rest) = (scanUnits rest).map (fun p => (.rune c :: p.1, p.2)) := by
  have hNotU : e ≠ 'u' := by
    rintro rfl
    simp [simpleEscape] at hE
  rw [scanUnits]
  · rw [hE]
    cases scanUnits rest <;> rfl
  · rintro a b c' d rest' hEq
    exact absurd hEq hNotU

theorem scanUnits_plain (hQuote : c ≠ '"') (hSlash : c ≠ '\\') (hControl : ¬ c.toNat < 0x20)
    (rest : Text) :
    scanUnits (c :: rest) = (scanUnits rest).map (fun p => (.rune c :: p.1, p.2)) := by
  rw [scanUnits]
  · rw [if_neg (by simp [hControl, hSlash])]
    cases scanUnits rest <;> rfl
  · exact fun h => hQuote h
  · rintro a b c' d rest' rfl
    exact absurd rfl hSlash
  · rintro a b rfl
    exact absurd rfl hSlash

theorem simpleEscape_named {letter : Char} (hNamed : namedEscapes.lookup c = some letter) :
    simpleEscape letter = some c := by
  have hAll : ∀ entry ∈ namedEscapes, simpleEscape entry.2 = some entry.1 := by decide
  obtain ⟨before, after, hEq, -⟩ := List.lookup_eq_some_iff.mp hNamed
  exact hAll (c, letter) (by rw [hEq]; simp)

theorem scanUnits_escapeRune (c : Char) :
    ∃ u : CodeUnit, u.Denotes c ∧ ∀ rest,
      scanUnits (escapeRune c ++ rest) = (scanUnits rest).map (fun p => (u :: p.1, p.2)) := by
  unfold escapeRune
  cases hNamed : namedEscapes.lookup c with
  | some letter =>
    exact ⟨.rune c, .inl rfl, scanUnits_simpleEscape (simpleEscape_named hNamed)⟩
  | none =>
    have hNe : c ≠ '"' ∧ c ≠ '\\' := by
      constructor <;> (rintro rfl; cases hNamed)
    split_ifs with hSmall h28 h29
    · have hByte : c.toNat < 256 := by
        rcases hSmall with hControl | rfl | rfl | rfl
        · omega
        all_goals decide
      exact ⟨_, denotes_escape c (by omega), scanUnits_smallEscape hByte⟩
    · subst h28
      exact ⟨_, denotes_escape '\u2028' (by decide), scanUnits_escape (by decide)⟩
    · subst h29
      exact ⟨_, denotes_escape '\u2029' (by decide), scanUnits_escape (by decide)⟩
    · exact ⟨_, .inl rfl, scanUnits_plain hNe.1 hNe.2 (fun h => hSmall (.inl h))⟩

theorem scanString_quote (s rest : Text) :
    scanString (s.flatMap escapeRune ++ '"' :: rest) = some (s, rest) := by
  have hUnits : ∃ units,
      scanUnits (s.flatMap escapeRune ++ '"' :: rest) =
        some (units, rest) ∧ joinUnits units = s := by
    induction s with
    | nil => exact ⟨[], rfl, rfl⟩
    | cons c s ih =>
      obtain ⟨units, hScan, hJoin⟩ := ih
      obtain ⟨u, hDenotes, hRead⟩ := scanUnits_escapeRune c
      refine ⟨u :: units, ?_, ?_⟩
      · rw [List.flatMap_cons, List.append_assoc, hRead, hScan]
        rfl
      · rw [joinUnits_cons hDenotes, hJoin]
  obtain ⟨units, hScan, hJoin⟩ := hUnits
  simp [scanString, hScan, hJoin]

----
-- Integers Round Trip
----

/- What may follow a value in a larger text. -/
def Delimited (rest : Text) : Prop :=
  ∀ c ∈ rest.head?, c = ',' ∨ c = ']' ∨ c = '}' ∨ isJsonSpace c = true

variable {rest : Text}

theorem Delimited.not_number (hRest : Delimited (c :: rest)) :
    c.isDigit = false ∧ c ≠ '.' ∧ c ≠ 'e' ∧ c ≠ 'E' := by
  have hC := hRest c rfl
  simp only [isJsonSpace, Bool.decide_or, Bool.or_eq_true, decide_eq_true_eq] at hC
  rcases hC with rfl | rfl | rfl | rfl | rfl | rfl | rfl <;>
    decide

theorem scanDigits_append {digits : Text} (hDigits : ∀ c ∈ digits, c.isDigit = true)
    (hRest : Delimited rest) : scanDigits (digits ++ rest) = (digits, rest) := by
  have hHead : rest.takeWhile Char.isDigit = [] ∧ rest.dropWhile Char.isDigit = rest := by
    cases rest with
    | nil => exact ⟨rfl, rfl⟩
    | cons c rest =>
      have hC := hRest.not_number.1
      exact ⟨List.takeWhile_cons_of_neg (by simp [hC]), List.dropWhile_cons_of_neg (by simp [hC])⟩
  unfold scanDigits
  rw [List.takeWhile_append_of_pos hDigits, List.dropWhile_append_of_pos hDigits, hHead.1, hHead.2,
    List.append_nil]

theorem scanFraction_delimited (hRest : Delimited rest) : scanFraction rest = some ([], rest) := by
  cases rest with
  | nil => rfl
  | cons c rest =>
    rw [scanFraction]
    intro s hEq
    exact hRest.not_number.2.1 (List.cons.inj hEq).1

theorem scanExponent_delimited (hRest : Delimited rest) : scanExponent rest = some ([], rest) := by
  cases rest with
  | nil => rfl
  | cons c rest =>
    rw [scanExponent, if_neg]
    simp [hRest.not_number.2.2.1, hRest.not_number.2.2.2]

theorem isDigit_toDigits (n : Nat) : ∀ c ∈ Nat.toDigits 10 n, c.isDigit = true :=
  fun _ hC =>
    Nat.isDigit_of_mem_toDigits (by decide) (by decide) hC

theorem toDigits_eq_cons (n : Nat) :
    ∃ c digits, Nat.toDigits 10 n = c :: digits ∧ c.isDigit = true := by
  obtain ⟨c, digits, hDigits⟩ := List.exists_cons_of_ne_nil (Nat.toDigits_ne_nil (b := 10) (n := n))
  exact ⟨c, digits, hDigits, isDigit_toDigits n c (by simp [hDigits])⟩

theorem head_toDigits_ne_zero (hN : n ≠ 0) : (Nat.toDigits 10 n).head? ≠ some '0' := by
  induction n using Nat.strongRecOn with
  | _ n ih =>
    rw [Nat.toDigits_eq_if (by decide)]
    split_ifs with hSmall
    · have hDigit : ∀ m < 10, m ≠ 0 → m.digitChar ≠ '0' := by decide
      simpa using hDigit n hSmall hN
    · rw [List.head?_append_of_ne_nil _ Nat.toDigits_ne_nil]
      exact ih (n / 10) (by omega) (by omega)

theorem wholeDigits_toDigits (n : Nat) : wholeDigits (Nat.toDigits 10 n) = true := by
  rcases Nat.eq_zero_or_pos n with rfl | hPos
  · decide
  · have hHead := head_toDigits_ne_zero hPos.ne'
    obtain ⟨c, digits, hDigits, -⟩ := toDigits_eq_cons n
    rw [hDigits, List.head?_cons, ne_eq, Option.some.injEq] at hHead
    rw [hDigits, wholeDigits]
    · simpa using hHead
    · rintro rfl -
      exact hHead rfl

theorem scanNumber_ofInt (n : Int) (hRest : Delimited rest) :
    scanNumber (Text.ofInt n ++ rest) = some (.int n, rest) := by
  have hScan := scanDigits_append (isDigit_toDigits n.natAbs) hRest
  have hValue : Nat.ofDigitChars 10 (Nat.toDigits 10 n.natAbs) 0 = n.natAbs :=
    Nat.ofDigitChars_toDigits (by decide) (by decide)
  have hWhole := wholeDigits_toDigits n.natAbs
  have hNoSign : ∀ s : Text,
      (Nat.toDigits 10 n.natAbs ++ s).takeWhile (fun c => decide (c = '-')) = [] := by
    intro s
    obtain ⟨c, digits, hDigits, hC⟩ := toDigits_eq_cons n.natAbs
    have hNe : c ≠ '-' := by
      rintro rfl
      exact absurd hC (by decide)
    simp [hDigits, hNe]
  unfold scanNumber Text.ofInt
  split_ifs with hNeg
  · simp only [List.cons_append, decide_true, List.takeWhile_cons_of_pos, hNoSign, List.length_cons,
      List.length_nil, List.drop_succ_cons, List.drop_zero,
      hScan, hWhole, scanFraction_delimited hRest, scanExponent_delimited hRest, hValue,
      Option.bind_eq_bind, Option.bind_some]
    have hAbs : -(n.natAbs : Int) = n := by omega
    rw [if_neg (List.cons_ne_nil _ _), hAbs]
    simp
  · simp only [hNoSign, List.length_nil, List.drop_zero,
      hScan, hWhole, scanFraction_delimited hRest, scanExponent_delimited hRest, hValue,
      Option.bind_eq_bind, Option.bind_some]
    have hAbs : (n.natAbs : Int) = n := by omega
    rw [hAbs]
    simp

----
-- Values Round Trip
----

mutual

/- A value without floating-point numbers. -/
def FloatFree : Json → Prop
  | float _ => False
  | arr xs => FloatFreeElements xs
  | obj fields => FloatFreeMembers fields
  | _ => True

def FloatFreeElements : List Json → Prop
  | [] => True
  | x :: xs => FloatFree x ∧ FloatFreeElements xs

def FloatFreeMembers : List (Text × Json) → Prop
  | [] => True
  | (_, x) :: fields => FloatFree x ∧ FloatFreeMembers fields

end

theorem scanValue_number (hC : c = '-' ∨ c.isDigit = true) (fuel : Nat) (rest : Text) :
    scanValue (fuel + 1) (c :: rest) = scanNumber (c :: rest) := by
  have hSpace : isJsonSpace c = false := by
    rcases hC with rfl | hC
    · decide
    · simp only [isJsonSpace, Bool.decide_or, Bool.or_eq_false_iff, decide_eq_false_iff_not]
      refine ⟨?_, ?_, ?_, ?_⟩ <;> (rintro rfl; exact absurd hC (by decide))
  have hNe : ∀ d : Char, d ≠ '-' → d.isDigit = false → c ≠ d := by
    rintro d hMinus hDigit rfl
    rcases hC with rfl | hC
    · exact hMinus rfl
    · rw [hC] at hDigit
      exact absurd hDigit (by decide)
  have hSkip : skipSpace (c :: rest) = c :: rest := List.dropWhile_cons_of_neg (by simp [hSpace])
  rw [scanValue, hSkip]
  split
  case h_7 => rfl
  all_goals
    rename_i hEq
    exact absurd (List.cons.inj hEq).1 (hNe _ (by decide) (by decide))

theorem encode_head {v : Json} (hV : v.FloatFree) :
    ∃ c s, v.encode = c :: s ∧ isJsonSpace c = false ∧ c ≠ ']' := by
  cases v with
  | null | str | arr | obj => exact ⟨_, _, rfl, by decide, by decide⟩
  | bool b =>
    cases b with
    | true | false => exact ⟨_, _, rfl, by decide, by decide⟩
  | int n =>
    rw [encode, Text.ofInt]
    split_ifs with hNeg
    · exact ⟨_, _, rfl, by decide, by decide⟩
    · obtain ⟨c, digits, hDigits, hC⟩ := toDigits_eq_cons n.natAbs
      have hNe : ∀ d : Char, d.isDigit = false → c ≠ d := by
        rintro d hD rfl
        rw [hC] at hD
        exact absurd hD (by decide)
      refine ⟨c, digits, hDigits, ?_, hNe _ (by decide)⟩
      simp [isJsonSpace, hNe]
  | float f => exact absurd hV (by simp [FloatFree])

theorem skipSpace_cons (hC : isJsonSpace c = false) (s : Text) : skipSpace (c :: s) = c :: s :=
  List.dropWhile_cons_of_neg (by simp [hC])

theorem delimited_cons {c : Char} (hC : c = ',' ∨ c = ']' ∨ c = '}')
    (rest : Text) : Delimited (c :: rest) := by
  rintro d hD
  obtain rfl : c = d := by simpa using hD
  rcases hC with rfl | rfl | rfl <;> simp

theorem quote_append (s rest : Text) :
    quote s ++ rest = '"' :: (s.flatMap escapeRune ++ '"' :: rest) := by
  simp [quote]

theorem length_quote (s : Text) : 2 ≤ (quote s).length := by
  simp [quote]

mutual

/-
  Reading a written value, by recursion on the value. Each level of nesting takes one bracket off
  the text and one unit off the fuel, so the length of the text is enough.
-/
theorem scanValue_encode : ∀ (v : Json) (fuel : Nat) (rest : Text), v.FloatFree →
      v.encode.length ≤ fuel → Delimited rest → scanValue fuel (v.encode ++ rest) = some (v, rest)
  | v, 0, _, hFree, hFuel, _ => by
    obtain ⟨c, s, hHead, -⟩ := encode_head hFree
    simp [hHead] at hFuel
  | null, fuel + 1, rest, _, _, _ => by
    simp [encode, scanValue, skipSpace, isJsonSpace]
  | bool true, fuel + 1, rest, _, _, _ => by
    simp [encode, scanValue, skipSpace, isJsonSpace]
  | bool false, fuel + 1, rest, _, _, _ => by
    simp [encode, scanValue, skipSpace, isJsonSpace]
  | int n, fuel + 1, rest, _, _, hRest => by
    have hNumber := scanNumber_ofInt n hRest
    rw [encode]
    unfold Text.ofInt at hNumber ⊢
    split_ifs at hNumber ⊢ with hNeg
    · rw [List.cons_append] at hNumber ⊢
      rw [scanValue_number (.inl rfl), hNumber]
    · obtain ⟨c, digits, hDigits, hC⟩ := toDigits_eq_cons n.natAbs
      rw [hDigits, List.cons_append] at hNumber ⊢
      rw [scanValue_number (.inr hC), hNumber]
  | float f, fuel + 1, _, hFree, _, _ =>
    absurd hFree (by simp [FloatFree])
  | str s, fuel + 1, rest, _, _, _ => by
    rw [encode, quote_append, scanValue, skipSpace_cons (by decide)]
    simp [scanString_quote]
  | arr [], fuel + 1, rest, _, _, _ => by
    simp [encode, encodeElements, scanValue, skipSpace, isJsonSpace]
  | arr (x :: xs), fuel + 1, rest, hFree, hFuel, _ => by
    have hElements := scanElements_encode x xs fuel rest
      (by simpa [FloatFree] using hFree)
      (by simpa [encode] using hFuel)
    obtain ⟨c, s, hHead, hSpace, hNotEnd⟩ :
        ∃ c s, encodeElements (x :: xs) ++ rest = c :: s ∧ isJsonSpace c = false ∧ c ≠ ']' := by
      obtain ⟨c, s, hHead, hSpace, hNotEnd⟩ :=
        encode_head (v := x) (by simp only [FloatFree, FloatFreeElements] at hFree; exact hFree.1)
      cases xs with
      | nil | cons =>
        exact ⟨c, _, by simp [encodeElements, hHead]; rfl, hSpace, hNotEnd⟩
    rw [encode, List.cons_append, scanValue, skipSpace_cons (by decide)]
    simp only [hHead, skipSpace_cons hSpace]
    rw [hHead] at hElements
    split
    · rename_i hEq
      exact absurd (List.cons.inj hEq).1 hNotEnd
    · simp [hElements]
  | obj [], fuel + 1, rest, _, _, _ => by
    simp [encode, encodeMembers, scanValue, skipSpace, isJsonSpace]
  | obj ((k, x) :: fields), fuel + 1, rest, hFree, hFuel, _ => by
    have hMembers := scanMembers_encode k x fields fuel rest
      (by simpa [FloatFree] using hFree)
      (by simpa [encode] using hFuel)
    obtain ⟨s, hHead⟩ : ∃ s,
        encodeMembers ((k, x) :: fields) ++ rest = '"' :: s := by
      cases fields with
      | nil => exact ⟨_, by simp [encodeMembers, quote]; rfl⟩
      | cons m ms =>
        exact ⟨_, by simp [encodeMembers, quote]; rfl⟩
    rw [encode, List.cons_append, scanValue, skipSpace_cons (by decide)]
    simp only [hHead, skipSpace_cons (c := '"') (by decide)]
    rw [hHead] at hMembers
    simp [hMembers]

theorem scanElements_encode : ∀ (x : Json) (xs : List Json) (fuel : Nat) (rest : Text),
      FloatFreeElements (x :: xs) → (encodeElements (x :: xs)).length ≤ fuel →
      scanElements fuel (encodeElements (x :: xs) ++ rest) = some (x :: xs, rest)
  | x, xs, 0, _, _, hFuel => by
    cases xs <;> simp [encodeElements] at hFuel
  | x, [], fuel + 1, rest, hFree, hFuel => by
    have hValue := scanValue_encode x fuel (']' :: rest)
      (by simp only [FloatFreeElements] at hFree
          exact hFree.1)
      (by simp [encodeElements] at hFuel; omega)
      (delimited_cons (by simp) rest)
    simp [encodeElements, scanElements, hValue, skipSpace_cons (c := ']') (by decide)]
  | x, y :: ys, fuel + 1, rest, hFree, hFuel => by
    simp only [encodeElements, List.length_append, List.length_cons] at hFuel
    have hValue := scanValue_encode x fuel
      (',' :: (encodeElements (y :: ys) ++ rest))
      hFree.1 (by omega) (delimited_cons (by simp) _)
    have hTail := scanElements_encode y ys fuel rest
      (by simp only [FloatFreeElements]; exact hFree.2)
      (by omega)
    simp [encodeElements, scanElements, hValue, hTail, skipSpace_cons (c := ',') (by decide)]

theorem scanMembers_encode : ∀ (k : Text) (x : Json) (fields : List (Text × Json))
      (fuel : Nat) (rest : Text),
      FloatFreeMembers ((k, x) :: fields) → (encodeMembers ((k, x) :: fields)).length ≤ fuel →
      scanMembers fuel (encodeMembers ((k, x) :: fields) ++ rest) = some ((k, x) :: fields, rest)
  | k, x, fields, 0, _, _, hFuel => by
    cases fields <;> simp [encodeMembers] at hFuel
  | k, x, [], fuel + 1, rest, hFree, hFuel => by
    simp only [encodeMembers, List.length_append, List.length_cons] at hFuel
    have hQuote := length_quote k
    have hValue := scanValue_encode x fuel ('}' :: rest)
      hFree.1 (by omega) (delimited_cons (by simp) rest)
    simp [encodeMembers, quote_append, scanMembers, scanString_quote, hValue,
      skipSpace_cons (c := '"') (by decide),
      skipSpace_cons (c := ':') (by decide),
      skipSpace_cons (c := '}') (by decide)]
  | k, x, (k', y) :: fields, fuel + 1, rest, hFree, hFuel => by
    simp only [encodeMembers, List.length_append, List.length_cons] at hFuel
    have hQuote := length_quote k
    have hValue := scanValue_encode x fuel
      (',' :: (encodeMembers ((k', y) :: fields) ++ rest))
      hFree.1 (by omega) (delimited_cons (by simp) _)
    have hTail := scanMembers_encode k' y fields fuel rest
      (by simp only [FloatFreeMembers]; exact hFree.2)
      (by omega)
    simp [encodeMembers, quote_append, scanMembers, scanString_quote, hValue, hTail,
      skipSpace_cons (c := '"') (by decide),
      skipSpace_cons (c := ':') (by decide),
      skipSpace_cons (c := ',') (by decide)]

end

theorem scan_encode {v : Json} (hV : v.FloatFree) (hRest : Delimited rest) :
    scan (v.encode ++ rest) = some (v, rest) :=
  scanValue_encode v _ rest hV (by rw [List.length_append]; omega) hRest

end Json
