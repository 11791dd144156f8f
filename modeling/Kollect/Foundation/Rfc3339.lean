import Kollect.Foundation.Text
import Mathlib.Data.List.DropRight
import Mathlib.Data.Nat.Digits.Defs

/-
  Instants and their texts, `time.RFC3339Nano` in UTC.

  An instant of the years 1 to 9999 is its date and time of day in UTC. The fraction of the seconds
  has no zeros at its end, and is left out if there is none. Texts with an offset other than `Z` are
  not read.

  Key theorems include:
    * `Instant.takeFraction_fraction`
    * `Instant.parse_format`
-/

def daysIn (year month : Nat) : Nat :=
  if month = 2 then
    if year % 4 = 0 ∧ (year % 100 ≠ 0 ∨ year % 400 = 0) then 29
    else 28
  else if month = 4 ∨ month = 6 ∨ month = 9 ∨ month = 11 then 30
  else 31

def ValidTime (year month day hour minute second nano : Nat) : Prop :=
  1 ≤ year ∧ year ≤ 9999 ∧ 1 ≤ month ∧ month ≤ 12 ∧ 1 ≤ day ∧ day ≤ daysIn year month ∧ hour < 24 ∧
    minute < 60 ∧ second < 60 ∧ nano < 10 ^ 9

instance (year month day hour minute second nano : Nat) :
    Decidable (ValidTime year month day hour minute second nano) := by
  unfold ValidTime
  infer_instance

structure Instant where
  year : Nat
  month : Nat
  day : Nat
  hour : Nat
  minute : Nat
  second : Nat
  nano : Nat
  valid : ValidTime year month day hour minute second nano
deriving DecidableEq

namespace Instant

def zero : Instant := ⟨1, 1, 1, 0, 0, 0, 0, by decide⟩

----
-- Writing
----

/- The fraction of a second, without zeros at the end. -/
def fraction (nano : Nat) : Text :=
  if nano = 0 then []
  else '.' :: (Text.digitsPadded 10 9 nano).rdropWhile (fun c => c = '0')

def format (t : Instant) : Text :=
  Text.digitsPadded 10 4 t.year ++ '-' :: (Text.digitsPadded 10 2 t.month ++ '-' ::
      (Text.digitsPadded 10 2 t.day ++ 'T' :: (Text.digitsPadded 10 2 t.hour ++ ':' ::
          (Text.digitsPadded 10 2 t.minute ++ ':' ::
            (Text.digitsPadded 10 2 t.second ++ (fraction t.nano ++ ['Z']))))))

----
-- Reading
----

def takeNumber (width : Nat) (s : Text) : Option (Nat × Text) :=
  let digits := s.take width
  if digits.length = width ∧ digits.all Char.isDigit then
    some (Nat.ofDigitChars 10 digits 0, s.drop width)
  else none

def expect (c : Char) : Text → Option Text
  | [] => none
  | d :: s => if d = c then some s else none

/- Nine digits of a fraction; digits behind them are dropped. -/
def takeFraction : Text → Nat × Text
  | '.' :: s =>
    let digits := s.takeWhile Char.isDigit
    if digits = [] then (0, '.' :: s)
    else (Nat.ofDigitChars 10 ((digits ++ List.replicate 9 '0').take 9) 0, s.dropWhile Char.isDigit)
  | s => (0, s)

def parse (s : Text) : Option Instant := do
  let (year, s) ← takeNumber 4 s
  let s ← expect '-' s
  let (month, s) ← takeNumber 2 s
  let s ← expect '-' s
  let (day, s) ← takeNumber 2 s
  let s ← expect 'T' s
  let (hour, s) ← takeNumber 2 s
  let s ← expect ':' s
  let (minute, s) ← takeNumber 2 s
  let s ← expect ':' s
  let (second, s) ← takeNumber 2 s
  let (nano, s) := takeFraction s
  let s ← expect 'Z' s
  if s ≠ [] then none
  else if hValid : ValidTime year month day hour minute second nano then
    some ⟨year, month, day, hour, minute, second, nano, hValid⟩
  else none

----
-- Round Trip
----

variable {width n : Nat}

theorem length_digitsPadded (hWidth : 0 < width) (hN : n < 10 ^ width) :
    (Text.digitsPadded 10 width n).length = width := by
  have hLe := Nat.toDigits_length 10 n width hWidth hN
  unfold Text.digitsPadded
  rw [List.length_append, List.length_replicate]
  omega

theorem takeNumber_digitsPadded (hWidth : 0 < width) (hN : n < 10 ^ width) (rest : Text) :
    takeNumber width (Text.digitsPadded 10 width n ++ rest) = some (n, rest) := by
  have hLength := length_digitsPadded hWidth hN
  have hAll : (Text.digitsPadded 10 width n).all Char.isDigit = true :=
    List.all_eq_true.mpr fun c hC => Text.isDigit_of_mem_digitsPadded hC
  unfold takeNumber
  rw [List.take_left' hLength, List.drop_left' hLength,
    if_pos ⟨hLength, hAll⟩, Text.ofDigitChars_digitsPadded]

/- The zeros at the end are put back. -/
theorem rdropWhile_zeros {digits : Text} (hLength : digits.length = 9) :
    (digits.rdropWhile (fun c => c = '0') ++ List.replicate 9 '0').take 9 = digits := by
  have hSplit := @List.rdropWhile_append_rtakeWhile _ (fun c => decide (c = '0')) digits
  have hZeros : digits.rtakeWhile (fun c => c = '0') =
      List.replicate (digits.rtakeWhile fun c => c = '0').length '0' := by
    refine List.eq_replicate_iff.mpr ⟨rfl, fun c hC => ?_⟩
    have hZero := List.mem_rtakeWhile_imp hC
    exact of_decide_eq_true hZero
  have hSum := congrArg List.length hSplit
  rw [List.length_append, hLength] at hSum
  conv_rhs => rw [← hSplit, hZeros]
  rw [List.take_append, List.take_of_length_le (by omega), List.take_replicate]
  congr 2
  omega

theorem takeFraction_fraction {nano : Nat} (hNano : nano < 10 ^ 9) :
    takeFraction (fraction nano ++ ['Z']) = (nano, ['Z']) := by
  unfold fraction
  split_ifs with hZero
  · rw [hZero]
    rfl
  · have hLength := length_digitsPadded (by decide) hNano
    -- a fraction that is not zero has a digit that stays
    have hNe : (Text.digitsPadded 10 9 nano).rdropWhile (fun c => c = '0') ≠ [] := by
      intro hNil
      rw [List.rdropWhile_eq_nil_iff] at hNil
      have hAll : Text.digitsPadded 10 9 nano = List.replicate 9 '0' :=
        List.eq_replicate_iff.mpr ⟨hLength, fun c hC => of_decide_eq_true (hNil c hC)⟩
      have hValue := Text.ofDigitChars_digitsPadded 9 nano
      rw [hAll] at hValue
      exact hZero hValue.symm
    have hDigits : ∀ c ∈ (Text.digitsPadded 10 9 nano).rdropWhile
        (fun c => c = '0'), c.isDigit = true := by
      intro c hC
      have hPart := List.rdropWhile_prefix (fun c => decide (c = '0')) (Text.digitsPadded 10 9 nano)
      exact Text.isDigit_of_mem_digitsPadded (hPart.subset hC)
    have hTake : ((Text.digitsPadded 10 9 nano).rdropWhile
        (fun c => c = '0') ++ ['Z']).takeWhile Char.isDigit =
          (Text.digitsPadded 10 9 nano).rdropWhile (fun c => c = '0') := by
      rw [List.takeWhile_append_of_pos hDigits]
      simp
    have hDrop : ((Text.digitsPadded 10 9 nano).rdropWhile
        (fun c => c = '0') ++ ['Z']).dropWhile Char.isDigit = ['Z'] := by
      rw [List.dropWhile_append_of_pos hDigits]
      rfl
    rw [List.cons_append, takeFraction, hTake, hDrop, if_neg hNe, rdropWhile_zeros hLength,
      Text.ofDigitChars_digitsPadded]

theorem parse_format (t : Instant) : parse t.format = some t := by
  rcases t with ⟨year, month, day, hour, minute, second, nano, hValid⟩
  have hDays : daysIn year month ≤ 31 := by
    unfold daysIn
    split_ifs <;> omega
  have hAll := hValid
  unfold ValidTime at hAll
  have hFour : ∀ rest, takeNumber 4 (Text.digitsPadded 10 4 year ++ rest) = some (year, rest) :=
    takeNumber_digitsPadded (by decide) (by omega)
  have hTwo : ∀ n < 100, ∀ rest, takeNumber 2 (Text.digitsPadded 10 2 n ++ rest) = some (n, rest) :=
    fun n hN => takeNumber_digitsPadded (by decide) hN
  have hExpect : ∀ c s, expect c (c :: s) = some s := fun c s => if_pos rfl
  unfold parse format
  simp only [hFour, hTwo month (by omega), hTwo day (by omega),
    hTwo hour (by omega), hTwo minute (by omega),
    hTwo second (by omega), hExpect, Option.bind_eq_bind,
    Option.bind_some, takeFraction_fraction hAll.2.2.2.2.2.2.2.2.2,
    ne_eq, not_true_eq_false, if_false, dif_pos hValid]

end Instant
