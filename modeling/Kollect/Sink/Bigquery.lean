import Kollect.Foundation.GoogleSql

/-
  The rows of a BigQuery export, written into the statement as a table of string constants.

  Key theorems include:
    * `scanBody_escape`
    * `mergeSourceRows_read_back`
-/

namespace Kollect

namespace Sink

namespace Bigquery

open GoogleSql

----
-- Writing
----

structure MergeRow where
  inventoryNamespace : Text
  inventoryName : Text
  cluster : Text
  targetName : Text
  sourceUID : Text
  resourceNamespace : Text
  payloadJSON : Text
  deriving DecidableEq, Repr

def sqlStringLiteralEscaper : List (Text × Text) :=
  [("\\", "\\\\"), ("'", "\\'"), ("\n", "\\n"), ("\r", "\\r")]

def sqlStringLiteral (v : Text) : Text :=
  '\'' :: Text.replaceAll sqlStringLiteralEscaper v ++ ['\'']

def mergeSelect (row : MergeRow) : Text :=
  ("SELECT " : Text) ++ sqlStringLiteral row.inventoryNamespace ++
    (" AS inventory_namespace, " : Text) ++ sqlStringLiteral row.inventoryName ++
    (" AS inventory_name, " : Text) ++ sqlStringLiteral row.cluster ++ (" AS cluster, " : Text) ++
    sqlStringLiteral row.targetName ++ (" AS target_name, " : Text) ++
    sqlStringLiteral row.sourceUID ++ (" AS source_uid, " : Text) ++
    sqlStringLiteral row.resourceNamespace ++ (" AS resource_namespace, " : Text) ++
    sqlStringLiteral row.payloadJSON ++ (" AS payload_json" : Text)

def mergeSourceRowsSQL (rows : List MergeRow) : Text :=
  ("(" : Text) ++ List.intercalate (" UNION ALL " : Text) (rows.map mergeSelect) ++ (")" : Text)

----
-- Literals
----

/- What the escaper writes for one rune. -/
def escapeRune (c : Char) : Text :=
  if c = '\\' then ['\\', '\\']
  else if c = '\'' then ['\\', '\'']
  else if c = '\n' then ['\\', 'n']
  else if c = '\r' then ['\\', 'r']
  else [c]

theorem replaceAll_cons (c : Char) (v : Text) : Text.replaceAll sqlStringLiteralEscaper (c :: v) =
      escapeRune c ++ Text.replaceAll sqlStringLiteralEscaper v := by
  unfold escapeRune
  split_ifs with hBackslash hQuote hLine hReturn
  · rw [hBackslash]
    rfl
  · rw [hQuote]
    rfl
  · rw [hLine]
    rfl
  · rw [hReturn]
    rfl
  · have hNone : sqlStringLiteralEscaper.find? (fun pair => pair.1.isPrefixOf (c :: v)) = none := by
      simp [sqlStringLiteralEscaper, List.isPrefixOf,
        Ne.symm hBackslash, Ne.symm hQuote, Ne.symm hLine, Ne.symm hReturn]
    simp [Text.replaceAll, Text.replaceFrom, hNone]

theorem scanBody_escapeRune (c : Char) (s : Text) :
    scanBody .plain (escapeRune c ++ s) = push c (scanBody .plain s) := by
  unfold escapeRune
  split_ifs with hBackslash hQuote hLine hReturn
  · rw [hBackslash]
    exact scanBody_named rfl s
  · rw [hQuote]
    exact scanBody_named rfl s
  · rw [hLine]
    exact scanBody_named rfl s
  · rw [hReturn]
    exact scanBody_named rfl s
  · apply scanBody_plain hQuote hBackslash
    rintro (h | h)
    · exact hLine h
    · exact hReturn h

/- The lexer's decoding undoes the escaper, up to the quote. -/
theorem scanBody_escape (v s : Text) :
    scanBody .plain (Text.replaceAll sqlStringLiteralEscaper v ++ '\'' :: s) = some (v, s) := by
  induction v with
  | nil => exact scanBody_quote s
  | cons c v ih =>
    rw [replaceAll_cons, List.append_assoc, scanBody_escapeRune, ih]
    rfl

theorem head_escape_ne_quote (v : Text) :
    (Text.replaceAll sqlStringLiteralEscaper v).head? ≠ some '\'' := by
  cases v with
  | nil => exact nofun
  | cons c v =>
    rw [replaceAll_cons]
    unfold escapeRune
    split_ifs with hBackslash hQuote hLine hReturn
    · exact nofun
    · exact nofun
    · exact nofun
    · exact nofun
    · simpa using hQuote

variable {s : Text} {tokens : List Token}

theorem lexes_literal (v : Text) (hEnd : s.head?.any isQuote = false) (hRest : Lexes s tokens) :
    Lexes (sqlStringLiteral v ++ s) (.quoted v :: tokens) := by
  have hLexes := Lexes.quoted (scanBody_escape v s) (head_escape_ne_quote v) hEnd hRest
  simpa [sqlStringLiteral] using hLexes

----
-- Rows
----

def MergeRow.columns (row : MergeRow) : List Column :=
  [⟨"inventory_namespace", row.inventoryNamespace⟩, ⟨"inventory_name", row.inventoryName⟩,
    ⟨"cluster", row.cluster⟩, ⟨"target_name", row.targetName⟩, ⟨"source_uid", row.sourceUID⟩,
    ⟨"resource_namespace", row.resourceNamespace⟩, ⟨"payload_json", row.payloadJSON⟩]

/- A name the lexer reads as one word. -/
def isWord : Text → Bool
  | [] => false
  | c :: name => isWordStart c && name.all isWordRune

/- What stands behind a word so that it ends there. -/
def EndsWord (s : Text) : Prop := s.head?.any (fun c => isWordRune c || isQuote c) = false

theorem endsWord_blank (s : Text) : EndsWord (' ' :: s) := rfl

theorem endsWord_comma (s : Text) : EndsWord (',' :: s) := rfl

theorem endsWord_close (s : Text) : EndsWord (')' :: s) := rfl

theorem lexes_word (name : Text) (hWord : isWord name = true) (hEnd : EndsWord s)
    (hRest : Lexes s tokens) : Lexes (name ++ s) (.word name :: tokens) := by
  cases name with
  | nil => exact Bool.noConfusion hWord
  | cons c name =>
    rw [isWord, Bool.and_eq_true] at hWord
    exact Lexes.word hWord.1 hWord.2 hEnd hRest

def columnText (column : Column) : Text :=
  sqlStringLiteral column.value ++ (" AS " : Text) ++ column.name

theorem lexes_column {column : Column} (hName : isWord column.name = true) (hEnd : EndsWord s)
    (hRest : Lexes s tokens) : Lexes (columnText column ++ s) (columnTokens column ++ tokens) := by
  have hAlias := Lexes.blank (lexes_word column.name hName hEnd hRest)
  have hAs := Lexes.blank (lexes_word "AS" rfl (endsWord_blank _) hAlias)
  have hLiteral := lexes_literal column.value rfl hAs
  rw [columnText, List.append_assoc, List.append_assoc]
  exact hLiteral

theorem lexes_columns {columns : List Column}
    (hNames : ∀ column ∈ columns, isWord column.name = true) (hEnd : EndsWord s)
    (hRest : Lexes s tokens) : Lexes (List.intercalate (", " : Text) (columns.map columnText) ++ s)
      (List.intercalate [.symbol ','] (columns.map columnTokens) ++ tokens) := by
  induction columns with
  | nil => exact hRest
  | cons column columns ih =>
    have hName := hNames column List.mem_cons_self
    have hTail := ih (fun other hOther => hNames other (List.mem_cons_of_mem column hOther))
    cases columns with
    | nil => simpa [List.intercalate] using lexes_column hName hEnd hRest
    | cons next columns =>
      have hComma := Lexes.symbol ',' (by simp) (Lexes.blank hTail)
      have hColumn := lexes_column hName (endsWord_comma _) hComma
      simpa [List.intercalate] using hColumn

theorem mergeSelect_eq (row : MergeRow) : mergeSelect row =
      ("SELECT " : Text) ++ List.intercalate (", " : Text) (row.columns.map columnText) := by
  unfold mergeSelect MergeRow.columns columnText
  simp only [String.reduceToList, List.map_cons, List.map_nil,
    intercalate_cons, List.flatMap_cons, List.flatMap_nil,
    List.append_assoc, List.append_nil, List.cons_append, List.nil_append]

theorem isWord_of_mem_columns (row : MergeRow) :
    ∀ column ∈ row.columns, isWord column.name = true := by
  intro column hMem
  simp only [MergeRow.columns, List.mem_cons, List.not_mem_nil, or_false] at hMem
  rcases hMem with rfl | rfl | rfl | rfl | rfl | rfl | rfl <;> rfl

theorem lexes_select (row : MergeRow) (hEnd : EndsWord s) (hRest : Lexes s tokens) :
    Lexes (mergeSelect row ++ s) (selectTokens row.columns ++ tokens) := by
  have hColumns := Lexes.blank (lexes_columns (isWord_of_mem_columns row) hEnd hRest)
  have hSelect := lexes_word "SELECT" rfl (endsWord_blank _) hColumns
  rw [mergeSelect_eq]
  exact hSelect

theorem lexes_selects (rows : List MergeRow) (hEnd : EndsWord s) (hRest : Lexes s tokens) :
    Lexes (List.intercalate (" UNION ALL " : Text) (rows.map mergeSelect) ++ s) (List.intercalate
        [.word ("UNION" : Text), .word ("ALL" : Text)]
        (rows.map (fun row => selectTokens row.columns)) ++ tokens) := by
  induction rows with
  | nil => exact hRest
  | cons row rows ih =>
    cases rows with
    | nil => simpa [List.intercalate] using lexes_select row hEnd hRest
    | cons next rows =>
      have hAll := Lexes.blank (lexes_word "ALL" rfl (endsWord_blank _) (Lexes.blank ih))
      have hUnion := Lexes.blank (lexes_word "UNION" rfl (endsWord_blank _) hAll)
      have hSelect := lexes_select row (endsWord_blank _) hUnion
      simpa [List.intercalate] using hSelect

/-
  The lexer reads every literal as one token that decodes to the field it was written for, and the
  tokens are the UNION ALL of one SELECT of seven columns for each row.
-/
theorem mergeSourceRows_read_back (rows : List MergeRow) :
    lex (mergeSourceRowsSQL rows) = some (unionTokens (rows.map MergeRow.columns)) ∧
      (lex (mergeSourceRowsSQL rows)).bind parseUnion = some (rows.map MergeRow.columns) := by
  have hClose : Lexes [')'] [.symbol ')'] := Lexes.symbol ')' (by simp) Lexes.nil
  have hSelects := lexes_selects rows (endsWord_close []) hClose
  have hOpen := Lexes.symbol '(' (by simp) hSelects
  have hLexes : Lexes (mergeSourceRowsSQL rows) (unionTokens (rows.map MergeRow.columns)) := by
    rw [mergeSourceRowsSQL, unionTokens, List.map_map]
    exact hOpen
  have hLex := lex_of_lexes hLexes
  refine ⟨hLex, ?_⟩
  rw [hLex]
  apply parseUnion_unionTokens
  intro columns hMem
  rcases List.mem_map.mp hMem with ⟨row, -, rfl⟩
  exact List.cons_ne_nil _ _

end Bigquery

end Sink

end Kollect
