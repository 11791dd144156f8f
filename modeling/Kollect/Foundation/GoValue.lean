import Kollect.Foundation.Json

/-
  Values of Go's `any` as collected attributes have them:
  nested string-keyed maps and slices over leaves.

  A leaf that is no JSON scalar keeps the name of its Go type
  and its content; what an encoder makes of it is not said here.

  Key theorems include:
    * `GoValue.induct`
-/

inductive GoValue where
  | null
  | bool (b : Bool)
  | int (n : Int)
  | float (f : Text)
  | str (s : Text)
  | other (goType content : Text)
  | list (xs : List GoValue)
  | map (members : List (Text × GoValue))

namespace GoValue

def isLeaf : GoValue → Bool
  | .list _ => false
  | .map _ => false
  | _ => true

mutual

def ofJson : Json → GoValue
  | .null => .null
  | .bool b => .bool b
  | .int n => .int n
  | .float f => .float f
  | .str s => .str s
  | .arr xs => .list (ofElements xs)
  | .obj fields => .map (ofMembers fields)

def ofElements : List Json → List GoValue
  | [] => []
  | x :: xs => ofJson x :: ofElements xs

def ofMembers : List (Text × Json) → List (Text × GoValue)
  | [] => []
  | (key, x) :: fields => (key, ofJson x) :: ofMembers fields

end

----
-- Induction
----

/- Induction with a hypothesis for every element and member. -/
@[elab_as_elim]
theorem induct {motive : GoValue → Prop} (leaf : ∀ v, v.isLeaf = true → motive v)
    (list : ∀ xs, (∀ x ∈ xs, motive x) → motive (.list xs))
    (map : ∀ members, (∀ entry ∈ members, motive entry.2) → motive (.map members)) (v : GoValue) :
    motive v := by
  apply @GoValue.rec motive (fun xs => ∀ x ∈ xs, motive x)
    (fun members => ∀ entry ∈ members, motive entry.2) (fun entry => motive entry.2)
  case null => exact leaf .null rfl
  case bool => exact fun b => leaf (.bool b) rfl
  case int => exact fun n => leaf (.int n) rfl
  case float => exact fun f => leaf (.float f) rfl
  case str => exact fun s => leaf (.str s) rfl
  case other => exact fun goType content => leaf (.other goType content) rfl
  case list => exact list
  case map => exact map
  case mk => exact fun _ _ hVal => hVal
  all_goals simp +contextual

----
-- Positions
----

/- One step into a map or a slice. -/
inductive Step where
  | key (k : Text)
  | index (i : Nat)
  deriving DecidableEq, Repr

def child? : GoValue → Step → Option GoValue
  | .map members, .key k => members.lookup k
  | .list xs, .index i => xs[i]?
  | _, _ => none

def at? (v : GoValue) : List Step → Option GoValue
  | [] => some v
  | step :: path => (v.child? step).bind (fun w => w.at? path)

/- A value without its children. -/
inductive Shape where
  | leaf (v : GoValue)
  | list (length : Nat)
  | map (keys : List Text)

def shape : GoValue → Shape
  | .list xs => .list xs.length
  | .map members => .map (members.map Prod.fst)
  | v => .leaf v

theorem at?_append (v : GoValue) (front path : List Step) :
    v.at? (front ++ path) = (v.at? front).bind (fun w => w.at? path) := by
  induction front generalizing v with
  | nil => rfl
  | cons step front ih =>
    rw [List.cons_append, at?, at?]
    cases v.child? step with
    | none => rfl
    | some w => exact ih w

end GoValue
