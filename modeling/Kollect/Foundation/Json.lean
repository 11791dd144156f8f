import Kollect.Foundation.Text

/-
  JSON-shaped values, as `encoding/json` decodes them into nested maps and lists.

  A float64 is kept as its shortest decimal text: nothing in the development computes with one.
-/

----
-- Values
----

inductive Json where
  | null
  | bool (b : Bool)
  | int (n : Int)
  | float (f : Text)
  | str (s : Text)
  | arr (xs : List Json)
  | obj (fields : List (Text × Json))

namespace Json

----
-- Decidable Equality
----

mutual

/- Structural equality test. -/
def beq : Json → Json → Bool
  | null, null => true
  | bool a, bool b => a == b
  | int a, int b => a == b
  | float a, float b => a == b
  | str a, str b => a == b
  | arr a, arr b => beqList a b
  | obj a, obj b => beqFields a b
  | _, _ => false

def beqList : List Json → List Json → Bool
  | [], [] => true
  | a :: as, b :: bs => beq a b && beqList as bs
  | _, _ => false

def beqFields : List (Text × Json) → List (Text × Json) → Bool
  | [], [] => true
  | a :: as, b :: bs => a.1 == b.1 && beq a.2 b.2 && beqFields as bs
  | _, _ => false

end

mutual

theorem beq_iff : ∀ a b : Json, beq a b = true ↔ a = b
  | .null, b => by cases b <;> simp [beq]
  | .bool x, b => by cases b <;> simp [beq]
  | .int x, b => by cases b <;> simp [beq]
  | .float x, b => by cases b <;> simp [beq]
  | .str x, b => by cases b <;> simp [beq]
  | .arr xs, b => by
    cases b with
    | arr ys => simp [beq, beqList_iff xs ys]
    | _ => simp [beq]
  | .obj xs, b => by
    cases b with
    | obj ys => simp [beq, beqFields_iff xs ys]
    | _ => simp [beq]

theorem beqList_iff : ∀ a b : List Json, beqList a b = true ↔ a = b
  | [], b => by cases b <;> simp [beqList]
  | x :: xs, b => by
    cases b with
    | nil => simp [beqList]
    | cons y ys => simp [beqList, beq_iff x y, beqList_iff xs ys]

theorem beqFields_iff : ∀ a b : List (Text × Json), beqFields a b = true ↔ a = b
  | [], b => by cases b <;> simp [beqFields]
  | (k, x) :: xs, b => by
    cases b with
    | nil => simp [beqFields]
    | cons y ys => simp [beqFields, beq_iff x y.2, beqFields_iff xs ys, Prod.ext_iff]

end

instance : DecidableEq Json := fun a b => decidable_of_iff (beq a b = true) (beq_iff a b)

----
-- Fields
----

def field? (key : Text) : Json → Option Json
  | obj fields => fields.lookup key
  | _ => none

end Json
