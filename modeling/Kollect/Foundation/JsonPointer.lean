import Kollect.Foundation.GoValue
import Kollect.Foundation.JsonTree
import Kollect.Foundation.Path

/-
  The nodes of a JSON document, and the pointers of RFC 6901 that address them.

  A place is a list of steps into maps and lists. Its pointer has one token for each step: the key,
  or the index in decimal digits, with a tilde and a slash escaped.

  Key theorems include:
    * `Json.removeAt_eq_self_iff`
    * `Json.segments_pointerText`
-/

namespace Json

open GoValue

----
-- Edits In Place
----

def editMember (key : Text) (change : Json → Json) : List (Text × Json) → List (Text × Json)
  | [] => []
  | (k, value) :: fields =>
    if k = key then (k, change value) :: fields
    else (k, value) :: editMember key change fields

variable {key : Text} {fields : List (Text × Json)}

theorem mem_editMember {change : Json → Json} {field : Text × Json}
    (hField : field ∈ editMember key change fields) :
    field ∈ fields ∨ ∃ old ∈ fields, field.2 = change old.2 := by
  induction fields with
  | nil => cases hField
  | cons old fields ih =>
    rw [editMember] at hField
    split_ifs at hField
    · rcases List.mem_cons.mp hField with rfl | hRest
      · exact Or.inr ⟨old, List.mem_cons_self, rfl⟩
      · exact Or.inl (List.mem_cons_of_mem _ hRest)
    · rcases List.mem_cons.mp hField with rfl | hRest
      · exact Or.inl List.mem_cons_self
      · exact (ih hRest).imp (List.mem_cons_of_mem _)
          fun ⟨old', hOld, hEq⟩ => ⟨old', List.mem_cons_of_mem _ hOld, hEq⟩

theorem editMember_inj {f g : Json → Json} : editMember key f fields = editMember key g fields ↔
      ∀ value, fields.lookup key = some value → f value = g value := by
  induction fields with
  | nil => simp [editMember]
  | cons field fields ih =>
    rw [editMember, editMember, List.lookup_cons]
    by_cases hKey : field.1 = key
    · simp [hKey]
    · have hOther : (key == field.1) = false := beq_eq_false_iff_ne.mpr (Ne.symm hKey)
      simp [hKey, hOther, ih]

theorem editMember_eq_self_iff {f : Json → Json} : editMember key f fields = fields ↔
      ∀ value, fields.lookup key = some value → f value = value := by
  have hId : editMember key id fields = fields := by
    induction fields with
    | nil => rfl
    | cons field fields ih =>
      rw [editMember, ih]
      split_ifs
      · rfl
      · rfl
  nth_rewrite 2 [← hId]
  exact editMember_inj

theorem filter_eq_self_iff : (fields.filter fun field => field.1 ≠ key) = fields ↔
    fields.lookup key = none := by
  rw [List.filter_eq_self, List.lookup_eq_none_iff]
  refine forall₂_congr fun field _ => ?_
  rw [decide_eq_true_iff, bne_iff_ne, ne_comm]

variable {i : Nat} {xs : List Json}

theorem modify_inj {f g : Json → Json} :
    xs.modify i f = xs.modify i g ↔ ∀ x, xs[i]? = some x → f x = g x := by
  rw [List.ext_getElem?_iff]
  simp only [List.getElem?_modify]
  constructor
  · intro hSame x hX
    have hAt := hSame i
    rw [hX] at hAt
    simpa using hAt
  · intro hSame j
    cases hX : xs[j]? with
    | none => rfl
    | some x =>
      by_cases hJ : i = j
      · subst hJ
        simp [hSame x hX]
      · simp [hJ]

theorem modify_eq_self_iff {f : Json → Json} :
    xs.modify i f = xs ↔ ∀ x, xs[i]? = some x → f x = x := by
  nth_rewrite 2 [← List.modify_id i xs]
  exact modify_inj

----
-- Places
----

/- The node at a place. -/
def node? : List Step → Json → Option Json
  | [], doc => some doc
  | .key key :: place, .obj fields => (fields.lookup key).bind (node? place)
  | .index i :: place, .arr xs => xs[i]?.bind (node? place)
  | _ :: _, _ => none

/- The document without the node at a place. A list keeps its length: the node becomes null. -/
def removeAt : List Step → Json → Json
  | .key key :: place, .obj fields =>
    if place = [] then .obj (fields.filter fun field => field.1 ≠ key)
    else .obj (editMember key (removeAt place) fields)
  | .index i :: place, .arr xs =>
    if place = [] then .arr (xs.set i .null)
    else .arr (xs.modify i (removeAt place))
  | _, doc => doc

/- An element of a list that is null already. -/
def NullElement (place : List Step) (doc : Json) : Prop :=
  (∃ i, place.getLast? = some (.index i)) ∧ node? place doc = some .null

variable {place : List Step} {doc : Json}

theorem removeAt_of_missing (hNone : node? place doc = none) : removeAt place doc = doc := by
  induction place generalizing doc with
  | nil => cases hNone
  | cons step place ih =>
    cases step with
    | key key =>
      cases doc with
      | obj fields =>
        rw [node?, Option.bind_eq_none_iff] at hNone
        rw [removeAt]
        split_ifs with hPlace
        · rw [filter_eq_self_iff.mpr]
          by_contra hSome
          obtain ⟨value, hValue⟩ := Option.ne_none_iff_exists'.mp hSome
          rw [hPlace] at hNone
          cases hNone value hValue
        · rw [editMember_eq_self_iff.mpr fun value hValue => ih (hNone value hValue)]
      | _ => rfl
    | index i =>
      cases doc with
      | arr xs =>
        rw [node?, Option.bind_eq_none_iff] at hNone
        rw [removeAt]
        split_ifs with hPlace
        · rw [List.set_eq_of_length_le]
          by_contra hLt
          rw [hPlace] at hNone
          cases hNone _ (List.getElem?_eq_getElem (Nat.lt_of_not_le hLt))
        · rw [modify_eq_self_iff.mpr fun value hValue => ih (hNone value hValue)]
      | _ => rfl

/- Taking out a node changes the document, unless the node is a null in a list. -/
theorem removeAt_eq_self_iff (hPlace : place ≠ []) (hNode : (node? place doc).isSome = true) :
    removeAt place doc = doc ↔ NullElement place doc := by
  induction place generalizing doc with
  | nil => exact absurd rfl hPlace
  | cons step place ih =>
    have hLast : place ≠ [] → ∀ s, (step :: place).getLast? = some s ↔ place.getLast? = some s :=
      fun hNe s => by rw [List.getLast?_cons_of_ne_nil hNe]
    unfold NullElement at ih ⊢
    cases step with
    | key key =>
      cases doc with
      | obj fields =>
        obtain ⟨value, hValue⟩ : ∃ value, fields.lookup key = some value := by
          rw [node?] at hNode
          exact Option.isSome_iff_exists.mp (Option.isSome_of_isSome_bind hNode)
        rw [node?, hValue, Option.bind_some] at hNode
        rw [removeAt, node?, hValue, Option.bind_some]
        split_ifs with hEnd
        · rw [Json.obj.injEq, filter_eq_self_iff, hValue, hEnd]
          simp
        · rw [Json.obj.injEq, editMember_eq_self_iff, hValue]
          simp only [Option.some.injEq, forall_eq', hLast hEnd]
          exact ih hEnd hNode
      | _ => cases hNode
    | index i =>
      cases doc with
      | arr xs =>
        obtain ⟨value, hValue⟩ : ∃ value, xs[i]? = some value := by
          rw [node?] at hNode
          exact Option.isSome_iff_exists.mp (Option.isSome_of_isSome_bind hNode)
        rw [node?, hValue, Option.bind_some] at hNode
        rw [removeAt, node?, hValue, Option.bind_some]
        split_ifs with hEnd
        · obtain ⟨hLt, rfl⟩ := List.getElem?_eq_some_iff.mp hValue
          have hSet : xs.set i .null = xs ↔ xs[i] = .null := by
            constructor
            · intro hSame
              have hAt := congrArg (·[i]?) hSame
              simpa [hLt, eq_comm] using hAt
            · intro hNull
              rw [← hNull, List.set_getElem_self]
          rw [hEnd, Json.arr.injEq, hSet]
          simp [node?]
        · rw [Json.arr.injEq, modify_eq_self_iff, hValue]
          simp only [Option.some.injEq, forall_eq', hLast hEnd]
          exact ih hEnd hNode
      | _ => cases hNode

----
-- Pointers
----

def escapeToken (token : Text) : Text :=
  token.flatMap fun c => if c = '~' then ['~', '0'] else if c = '/' then ['~', '1'] else [c]

/- The pointer of some tokens. -/
def pointerText (tokens : List Text) : Text := tokens.flatMap fun token => '/' :: escapeToken token

/- The token that stands for a step. -/
def stepToken : Step → Text
  | .key key => key
  | .index i => Nat.toDigits 10 i

/- The pointer is that of the place, and the document has a node there. -/
def Addresses (pointer : Text) (doc : Json) (place : List Step) : Prop :=
  pointer = pointerText (place.map stepToken) ∧ (node? place doc).isSome = true

theorem slash_notMem_escapeToken (token : Text) : '/' ∉ escapeToken token := by
  unfold escapeToken
  rw [List.mem_flatMap]
  rintro ⟨c, -, hC⟩
  split_ifs at hC with hTilde hSlash
  · exact absurd hC (by decide)
  · exact absurd hC (by decide)
  · exact hSlash (List.mem_singleton.mp hC).symm

theorem segments_pointerText (token : Text) (tokens : List Text) :
    Path.segments (escapeToken token ++ pointerText tokens) =
      (token :: tokens).map escapeToken := by
  induction tokens generalizing token with
  | nil =>
    rw [pointerText, List.flatMap_nil, List.append_nil]
    exact Path.segments_eq_singleton (slash_notMem_escapeToken token)
  | cons next tokens ih =>
    rw [pointerText, List.flatMap_cons, List.cons_append,
      Path.segments_append_sep (slash_notMem_escapeToken token), List.map_cons]
    exact congrArg _ (ih next)

end Json
