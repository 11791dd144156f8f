import Kollect.Foundation.Json

/-
  Subtrees of a JSON document.

  A document is read along a path of keys; a subtree can be taken out of it. What is read beside the
  subtree is not changed by that.

  Key theorems include:
    * `Json.nested?_without`
    * `Json.nested?_withoutAll`
-/

namespace Json

variable {key : Text}

theorem mem_of_lookup {V : Type} {value : V} {entries : List (Text × V)}
    (hValue : entries.lookup key = some value) : (key, value) ∈ entries := by
  rcases List.lookup_eq_some_iff.mp hValue with ⟨front, rest, rfl, -⟩
  exact List.mem_append_right _ List.mem_cons_self

/- The value is not a map, so it has no fields. -/
inductive NotMap where
  | notMap
deriving DecidableEq, Repr

/-
  The value under a path of keys. Nothing is found below a null; below any other value that is no
  map, it is an error.
-/
def nested? : List Text → Json → Except NotMap (Option Json)
  | [], doc => .ok (some doc)
  | _ :: _, .null => .ok none
  | key :: path, .obj fields =>
    match fields.lookup key with
    | none => .ok none
    | some value => nested? path value
  | _ :: _, _ => .error .notMap

theorem nested?_cons_obj (key : Text) (path : List Text) (fields : List (Text × Json)) :
    nested? (key :: path) (.obj fields) =
      match fields.lookup key with
      | none => .ok none
      | some value => nested? path value :=
  rfl

/- The document without the subtree under a path. -/
def without : List Text → Json → Json
  | [key], .obj fields => .obj (fields.filter fun field => field.1 ≠ key)
  | key :: path, .obj fields =>
    .obj (fields.map fun field =>
      if field.1 = key then (field.1, without path field.2)
      else field)
  | _, doc => doc

def withoutAll (paths : List (List Text)) (doc : Json) : Json := paths.foldr without doc

/- Neither path leads into the subtree of the other. -/
def Beside (path path' : List Text) : Prop := ¬ path <+: path' ∧ ¬ path' <+: path

theorem lookup_filter_ne {key' : Text} (hNe : key ≠ key') (fields : List (Text × Json)) :
    (fields.filter fun field => field.1 ≠ key').lookup key = fields.lookup key := by
  induction fields with
  | nil => rfl
  | cons field fields ih =>
    by_cases hField : field.1 = key'
    · have hOther : (key == field.1) = false := by
        rw [hField]
        exact beq_eq_false_iff_ne.mpr hNe
      rw [List.filter_cons_of_neg (by simp [hField]), ih, List.lookup_cons, hOther]
    · rw [List.filter_cons_of_pos (by simp [hField]), List.lookup_cons, List.lookup_cons, ih]

theorem lookup_map_at (change : Json → Json) (key key' : Text) (fields : List (Text × Json)) :
    (fields.map fun field =>
      if field.1 = key' then (field.1, change field.2)
      else field).lookup key =
      if key = key' then (fields.lookup key).map change
      else fields.lookup key := by
  induction fields with
  | nil => simp
  | cons field fields ih =>
    have hKey : (if field.1 = key' then (field.1, change field.2) else field).1 = field.1 := by
      split_ifs
      · rfl
      · rfl
    rw [List.map_cons, List.lookup_cons, List.lookup_cons, hKey, ih]
    by_cases hHere : key = field.1
    · have hBeq : (key == field.1) = true := beq_iff_eq.mpr hHere
      rw [hBeq, hHere]
      split_ifs
      · rfl
      · rfl
    · have hBeq : (key == field.1) = false := beq_eq_false_iff_ne.mpr hHere
      rw [hBeq]

variable {path : List Text}

theorem Beside.tail {path' : List Text} (hBeside : Beside (key :: path) (key :: path')) :
    Beside path path' :=
  ⟨fun hPrefix => hBeside.1 (List.prefix_cons_inj key |>.mpr hPrefix),
    fun hPrefix => hBeside.2 (List.prefix_cons_inj key |>.mpr hPrefix)⟩

theorem nested?_without {out : List Text} (hBeside : Beside path out) (doc : Json) :
    nested? path (without out doc) = nested? path doc := by
  induction path generalizing out doc with
  | nil => exact absurd (List.nil_prefix) hBeside.1
  | cons key path ih =>
    cases out with
    | nil => exact absurd (List.nil_prefix) hBeside.2
    | cons key' out =>
      cases doc with
      | obj fields =>
        by_cases hKey : key = key'
        · subst hKey
          have hTail := hBeside.tail
          cases out with
          | nil => exact absurd List.nil_prefix hTail.2
          | cons key' out =>
            unfold without
            rw [nested?_cons_obj, nested?_cons_obj, lookup_map_at, if_pos rfl]
            cases fields.lookup key with
            | none => rfl
            | some value => exact ih hTail value
        · cases out with
          | nil =>
            unfold without
            rw [nested?_cons_obj, nested?_cons_obj, lookup_filter_ne hKey]
          | cons key'' out =>
            unfold without
            rw [nested?_cons_obj, nested?_cons_obj, lookup_map_at, if_neg hKey]
      | _ =>
        cases out with
        | nil | cons => rfl

theorem nested?_withoutAll {outs : List (List Text)} (hBeside : ∀ out ∈ outs, Beside path out)
    (doc : Json) : nested? path (withoutAll outs doc) = nested? path doc := by
  induction outs with
  | nil => rfl
  | cons out outs ih =>
    rw [List.forall_mem_cons] at hBeside
    exact (nested?_without hBeside.1 _).trans (ih hBeside.2)

end Json
