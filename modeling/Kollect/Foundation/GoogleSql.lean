import Kollect.Foundation.Text

/-
  The part of GoogleSQL's lexical structure that a table of constants uses: words, symbols, and
  single-quoted string literals with every documented escape.

  The lexer refuses what it does not read, so a text it accepts has no other reading: a
  triple-quoted literal, a raw or bytes literal, and two literals side by side.

  Key theorems include:
    * `GoogleSql.Lexes.quoted`
    * `GoogleSql.parseUnion_unionTokens`
-/

namespace GoogleSql

----
-- String Literals
----

/- The escapes of one letter, and the rune each stands for. -/
def namedEscapes : List (Char × Char) :=
  [('a', '\x07'), ('b', '\x08'), ('f', '\x0c'), ('n', '\n'),
    ('r', '\r'), ('t', '\t'), ('v', '\x0b'), ('\\', '\\'),
    ('?', '?'), ('"', '"'), ('\'', '\''), ('\x60', '\x60')]

/- The letters that open an escape of a fixed number of hexadecimal digits. -/
def hexEscapes : List (Char × Nat) := [('x', 2), ('X', 2), ('u', 4), ('U', 8)]

def digitValue? (base : Nat) (c : Char) : Option Nat :=
  let value? :=
    if '0' ≤ c ∧ c ≤ '9' then some (c.toNat - '0'.toNat)
    else if 'a' ≤ c ∧ c ≤ 'f' then some (c.toNat - 'a'.toNat + 10)
    else if 'A' ≤ c ∧ c ≤ 'F' then some (c.toNat - 'A'.toNat + 10)
    else none
  value?.filter (· < base)

/- The rune of a code point; a surrogate has none. -/
def rune? (n : Nat) : Option Char := if n.isValidChar then some (Char.ofNat n) else none

/- Where a reader inside a literal stands. -/
inductive Inside where
  | plain
  | afterBackslash
  | digits (base missing value : Nat)

/- One rune of the value in front of what follows. -/
def push (c : Char) (scanned : Option (Text × Text)) : Option (Text × Text) :=
  scanned.map (fun found => (c :: found.1, found.2))

/-
  Read the inside of a single-quoted literal up to its closing quote. The result is the value and
  the text behind it.
-/
def scanBody : Inside → Text → Option (Text × Text)
  | _, [] => none
  | .plain, c :: s =>
    if c = '\'' then some ([], s)
    else if c = '\\' then scanBody .afterBackslash s
    -- A quoted literal is on one line.
    else if c = '\n' ∨ c = '\r' then none
    else push c (scanBody .plain s)
  | .afterBackslash, c :: s =>
    match namedEscapes.lookup c, hexEscapes.lookup c with
    | some rune, _ => push rune (scanBody .plain s)
    | none, some digits => scanBody (.digits 16 digits 0) s
    | none, none =>
      -- An octal escape has three digits, the first at most 3.
      match digitValue? 4 c with
      | some value => scanBody (.digits 8 2 value) s
      | none => none
  | .digits base missing value, c :: s =>
    match digitValue? base c with
    | none => none
    | some digit =>
      if 1 < missing then scanBody (.digits base (missing - 1) (value * base + digit)) s
      else
        match rune? (value * base + digit) with
        | some rune => push rune (scanBody .plain s)
        | none => none

theorem scanBody_quote (s : Text) : scanBody .plain ('\'' :: s) = some ([], s) := rfl

theorem scanBody_named {letter rune : Char} (hNamed : namedEscapes.lookup letter = some rune)
    (s : Text) : scanBody .plain ('\\' :: letter :: s) = push rune (scanBody .plain s) := by
  have hOpen : scanBody .plain ('\\' :: letter :: s) = scanBody .afterBackslash (letter :: s) := rfl
  rw [hOpen, scanBody, hNamed]

theorem scanBody_plain {c : Char} (hQuote : c ≠ '\'') (hBackslash : c ≠ '\\')
    (hLine : ¬ (c = '\n' ∨ c = '\r')) (s : Text) :
    scanBody .plain (c :: s) = push c (scanBody .plain s) := by
  rw [scanBody, if_neg hQuote, if_neg hBackslash, if_neg hLine]

def isQuote (c : Char) : Bool := c = '\'' || c = '"'

/-
  Read a literal whose opening quote has been passed. Three quotes open a triple-quoted literal, and
  a literal that follows directly on another is an error.
-/
def scanQuoted (s : Text) : Option (Text × Text) :=
  if ['\'', '\''].isPrefixOf s then none
  else (scanBody .plain s).filter (fun found => !found.2.head?.any isQuote)

----
-- Tokens
----

inductive Token where
  | word (name : Text)
  | symbol (mark : Char)
  | quoted (value : Text)
  deriving DecidableEq, Repr

def isBlank (c : Char) : Bool := c = ' ' || c = '\t' || c = '\n' || c = '\r'

def isWordStart (c : Char) : Bool := c.isAlpha || c = '_'

def isWordRune (c : Char) : Bool := isWordStart c || c.isDigit

def isSymbol (c : Char) : Bool := c = '(' || c = ')' || c = ','

/-
  Read the tokens of a text; `fuel` bounds how many. A quote behind a word makes the word the mark
  of another kind of literal, as in `r'…'`.
-/
def lexFrom : Nat → Text → Option (List Token)
  | _, [] => some []
  | 0, _ :: _ => none
  | fuel + 1, c :: s =>
    if isBlank c then lexFrom fuel s
    else if c = '\'' then do
      let (value, s) ← scanQuoted s
      let tokens ← lexFrom fuel s
      return .quoted value :: tokens
    else if isWordStart c then
      let rest := s.dropWhile isWordRune
      if rest.head?.any isQuote then none
      else do
        let tokens ← lexFrom fuel rest
        return .word (c :: s.takeWhile isWordRune) :: tokens
    else if isSymbol c then do
      let tokens ← lexFrom fuel s
      return .symbol c :: tokens
    else none

/- Every token takes a rune, so the length is fuel enough. -/
def lex (s : Text) : Option (List Token) := lexFrom s.length s

/- With fuel for its length, a text is read as these tokens. -/
def Lexes (s : Text) (tokens : List Token) : Prop :=
  ∀ fuel, s.length ≤ fuel → lexFrom fuel s = some tokens

theorem lex_of_lexes {s : Text} {tokens : List Token} (hLexes : Lexes s tokens) :
    lex s = some tokens :=
  hLexes s.length (Nat.le_refl _)

namespace Lexes

variable {s : Text} {tokens : List Token}

theorem nil : Lexes [] [] := by
  intro fuel _
  cases fuel <;> rfl

theorem blank (hRest : Lexes s tokens) : Lexes (' ' :: s) tokens := by
  intro fuel hFuel
  rcases fuel with _ | fuel
  · simp at hFuel
  · exact hRest fuel (by simpa using hFuel)

theorem symbol (mark : Char) (hMark : mark ∈ ['(', ')', ',']) (hRest : Lexes s tokens) :
    Lexes (mark :: s) (.symbol mark :: tokens) := by
  intro fuel hFuel
  rcases fuel with _ | fuel
  · simp at hFuel
  · have hTokens := hRest fuel (by simpa using hFuel)
    have hKind : isBlank mark = false ∧ mark ≠ '\'' ∧
        isWordStart mark = false ∧ isSymbol mark = true := by
      simp only [List.mem_cons, List.not_mem_nil, or_false] at hMark
      rcases hMark with rfl | rfl | rfl <;> decide
    simp [lexFrom, hTokens, hKind]

theorem word {c : Char} {name : Text} (hStart : isWordStart c = true)
    (hName : name.all isWordRune = true)
    (hEnd : s.head?.any (fun d => isWordRune d || isQuote d) = false) (hRest : Lexes s tokens) :
    Lexes (c :: name ++ s) (.word (c :: name) :: tokens) := by
  intro fuel hFuel
  rcases fuel with _ | fuel
  · simp at hFuel
  · have hTokens := hRest fuel (by
      simp only [List.cons_append, List.length_cons, List.length_append] at hFuel
      omega)
    have hAll : ∀ d ∈ name, isWordRune d = true := List.all_eq_true.mp hName
    have hTake : (name ++ s).takeWhile isWordRune = name := by
      rw [List.takeWhile_append_of_pos hAll]
      cases s with
      | nil => simp
      | cons d s => simp_all
    have hDrop : (name ++ s).dropWhile isWordRune = s := by
      rw [List.dropWhile_append_of_pos hAll]
      cases s with
      | nil => simp
      | cons d s => simp_all
    have hQuote : s.head?.any isQuote = false := by cases s <;> simp_all
    have hBlank : isBlank c = false := by
      by_contra hBlank
      simp only [isBlank, Bool.not_eq_false, Bool.or_eq_true, decide_eq_true_eq] at hBlank
      rcases hBlank with ((rfl | rfl) | rfl) | rfl <;>
        exact absurd hStart (by decide)
    have hNotQuote : c ≠ '\'' := by
      rintro rfl
      exact absurd hStart (by decide)
    simp [lexFrom, hBlank, hNotQuote, hStart, hTake, hDrop, hQuote, hTokens]

theorem quoted {body value : Text} (hBody : scanBody .plain (body ++ '\'' :: s) = some (value, s))
    (hOpen : body.head? ≠ some '\'') (hEnd : s.head?.any isQuote = false) (hRest : Lexes s tokens) :
    Lexes ('\'' :: body ++ '\'' :: s) (.quoted value :: tokens) := by
  intro fuel hFuel
  rcases fuel with _ | fuel
  · simp at hFuel
  · have hTokens := hRest fuel (by
      simp only [List.cons_append, List.length_cons, List.length_append] at hFuel
      omega)
    -- Two more quotes would need one in front of the body, or
    -- one behind the closing quote of an empty body.
    have hTriple : ['\'', '\''].isPrefixOf (body ++ '\'' :: s) = false := by
      cases body with
      | nil =>
        cases s with
        | nil => rfl
        | cons d s =>
          have hNe : d ≠ '\'' := by
            rintro rfl
            exact Bool.noConfusion hEnd
          simp [List.isPrefixOf, hNe.symm]
      | cons b body =>
        have hNe : '\'' ≠ b := by
          rintro rfl
          exact hOpen rfl
        simp [List.isPrefixOf, hNe]
    have hScan : scanQuoted (body ++ '\'' :: s) = some (value, s) := by
      simp [scanQuoted, hTriple, hBody, hEnd]
    simp [lexFrom, isBlank, hScan, hTokens]

end Lexes

----
-- Tables Of Constants
----

/- A column of one row: its name and its constant. -/
structure Column where
  name : Text
  value : Text
  deriving DecidableEq, Repr

def parseColumns : List Token → Option (List Column × List (List Column))
  | .quoted value :: .word as :: .word name :: tokens =>
    if as = ("AS" : Text) then
      match tokens with
      | .symbol ',' :: tokens =>
        (parseColumns tokens).map (fun parsed => (⟨name, value⟩ :: parsed.1, parsed.2))
      | .word union :: .word all :: .word select :: tokens =>
        if (union, all, select) = (("UNION", "ALL", "SELECT") : Text × Text × Text)
        then (parseColumns tokens).map (fun parsed => ([⟨name, value⟩], parsed.1 :: parsed.2))
        else none
      | [.symbol ')'] => some ([⟨name, value⟩], [])
      | _ => none
    else none
  | _ => none

/-
  The rows of a parenthesised UNION ALL of SELECTs without a FROM. Empty parentheses hold no SELECT.
-/
def parseUnion : List Token → Option (List (List Column))
  | [.symbol '(', .symbol ')'] => some []
  | .symbol '(' :: .word select :: tokens =>
    if select = ("SELECT" : Text) then
      (parseColumns tokens).map (fun parsed => parsed.1 :: parsed.2)
    else none
  | _ => none

def columnTokens (column : Column) : List Token :=
  [.quoted column.value, .word ("AS" : Text), .word column.name]

def selectTokens (columns : List Column) : List Token :=
  .word ("SELECT" : Text) :: List.intercalate [.symbol ','] (columns.map columnTokens)

def unionTokens (rows : List (List Column)) : List Token :=
  .symbol '(' :: List.intercalate [.word ("UNION" : Text), .word ("ALL" : Text)]
      (rows.map selectTokens) ++ [.symbol ')']

theorem intercalate_cons {α : Type} (sep part : List α) (parts : List (List α)) :
    List.intercalate sep (part :: parts) = part ++ parts.flatMap (sep ++ ·) := by
  induction parts generalizing part with
  | nil => simp [List.intercalate]
  | cons next parts ih =>
    have hNext := ih next
    simp only [List.intercalate, List.intersperse_cons_cons, List.flatten_cons, List.flatMap_cons,
      List.append_assoc] at hNext ⊢
    rw [hNext]

variable {rows : List (List Column)}

/-
  Columns are read one by one; what stands behind the last of them decides the SELECTs that follow.
-/
theorem parseColumns_intercalate {columns : List Column} {tail : List Token}
    (hColumns : columns ≠ [])
    (hTail : ∀ last, parseColumns (columnTokens last ++ tail) = some ([last], rows)) :
    parseColumns (List.intercalate [.symbol ','] (columns.map columnTokens) ++ tail) =
      some (columns, rows) := by
  induction columns with
  | nil => exact absurd rfl hColumns
  | cons column columns ih =>
    cases columns with
    | nil => simpa [List.intercalate] using hTail column
    | cons next columns =>
      have hRest := ih (List.cons_ne_nil next columns)
      simp only [List.map_cons, List.intercalate, List.intersperse_cons_cons, List.flatten_cons,
        List.append_assoc] at hRest ⊢
      simp only [columnTokens, List.cons_append, List.nil_append, parseColumns, if_true] at hRest ⊢
      rw [hRest]
      rfl

theorem parseColumns_selects (columns : List Column) (rows : List (List Column))
    (hRows : ∀ row ∈ columns :: rows, row ≠ []) : parseColumns (List.intercalate [.symbol ',']
          (columns.map columnTokens) ++
            rows.flatMap (fun row =>
              .word ("UNION" : Text) :: .word ("ALL" : Text) ::
                selectTokens row) ++ [.symbol ')']) = some (columns, rows) := by
  induction rows generalizing columns with
  | nil =>
    rw [List.append_assoc]
    apply parseColumns_intercalate (hRows columns List.mem_cons_self)
    intro last
    rfl
  | cons row rows ih =>
    rw [List.append_assoc]
    apply parseColumns_intercalate (hRows columns List.mem_cons_self)
    intro last
    have hRest := ih row (fun other hOther => hRows other (List.mem_cons_of_mem columns hOther))
    simp only [List.flatMap_cons, selectTokens, columnTokens,
      List.cons_append, List.nil_append, List.append_assoc, parseColumns, if_true] at hRest ⊢
    rw [hRest]
    rfl

/- The tokens of a table are read back as the table. -/
theorem parseUnion_unionTokens (hRows : ∀ row ∈ rows, row ≠ []) :
    parseUnion (unionTokens rows) = some rows := by
  cases rows with
  | nil => rfl
  | cons row rows =>
    have hRest := parseColumns_selects row rows hRows
    rw [unionTokens, List.map_cons, intercalate_cons, List.flatMap_map]
    simp only [selectTokens, List.cons_append, List.nil_append, parseUnion, if_true,
      List.append_assoc] at hRest ⊢
    rw [hRest]
    rfl

end GoogleSql
