import Kollect.Foundation.GoValue

/-
  Redaction of sensitive material in extracted attributes.

  An entry of a map is redacted for its key, or because its value carries a credential. The marker
  put in its place is itself a map, so a second pass inspects it by the same rules.

  Key theorems include:
    * `redaction_scrub`
    * `scrub_scrub_iff`
-/

namespace Kollect

namespace Collect

----
-- Keys
----

/- `unicode.ToLower`, of which only ASCII is fixed. -/
structure Lowering where
  toLower : Char → Char
  ascii : ∀ c, c.toNat < 128 → toLower c = c.toLower

def defaultScrubKeys : List Text :=
  ["password", "passwd", "secret", "token", "apikey",
    "api_key", "privatekey", "private_key", "credential",
    "auth", "clientsecret", "connectionstring",
    "authorization", "proxyauthorization", "bearertoken"]

def highRiskStems : List Text := ["authorization", "bearer"]

def scrubReason : Text := "sensitive-key"

def redactedValue : GoValue := .map [("redacted", .bool true), ("reason", .str scrubReason)]

def normalizeScrubKey (low : Lowering) (key : Text) : Text := (Text.trimSpace key).map low.toLower

structure Scrubber where
  low : Lowering
  keys : GoMap Text Unit

variable (low : Lowering) (extraKeys : List Text)

def newScrubber : Scrubber where
  low := low
  keys :=
    let builtin : GoMap Text Unit := defaultScrubKeys.foldl
        (fun keys key => keys.insert (normalizeScrubKey low key) ()) ∅
    extraKeys.foldl
      (fun keys key =>
        let normalized := normalizeScrubKey low key
        if normalized ≠ [] then keys.insert normalized ()
        else keys) builtin

namespace Scrubber

def isSensitiveKey (s : Scrubber) (key : Text) : Bool :=
  let normalized := normalizeScrubKey s.low key
  if normalized = [] then false
  else if (s.keys.lookup normalized).isSome then true
  else if s.keys.keys.any (fun deny =>
      decide (2 < Text.byteLen deny) && deny.isSuffixOf normalized) then true
  else highRiskStems.any (·.isPrefixOf normalized)

end Scrubber

/- The rule for a map under `key`, by the keys it has. -/
def carriesCredential (low : Lowering) (key : Text) (has : Text → Bool) : Bool :=
  let normalized := normalizeScrubKey low key
  if normalized = ("valuefrom" : Text) then has "secretKeyRef"
  else if normalized = ("secretkeyref" : Text) ∨ normalized = ("secretref" : Text) then true
  else if normalized = ("tls" : Text) then has "key"
  else false

def isCredentialCarrier (low : Lowering) (key : Text) : GoValue → Bool
  | .map members => carriesCredential low key (fun k => (members.lookup k).isSome)
  | _ => false

----
-- Scrubbing
----

namespace Scrubber

def shouldRedactKey (s : Scrubber) (key : Text) (val : GoValue) : Bool :=
  if s.isSensitiveKey key then true
  else isCredentialCarrier s.low key val

mutual

def scrub (s : Scrubber) : GoValue → GoValue
  | .map members => .map (scrubMap s members)
  | .list xs => .list (scrubList s xs)
  | .null => .null
  | .bool b => .bool b
  | .int n => .int n
  | .float f => .float f
  | .str t => .str t
  | .other goType content => .other goType content

def scrubList (s : Scrubber) : List GoValue → List GoValue
  | [] => []
  | x :: xs => scrub s x :: scrubList s xs

def scrubMap (s : Scrubber) : List (Text × GoValue) → List (Text × GoValue)
  | [] => []
  | (key, val) :: members =>
    (key,
      if s.shouldRedactKey key val then redactedValue
      else scrub s val) :: scrubMap s members

end

def scrubAttributes (s : Scrubber) (attrs : GoMap Text GoValue) : GoMap Text GoValue :=
  GoMap.ofList (attrs.entries.map (fun entry => (entry.1, s.scrub entry.2)))

end Scrubber

----
-- Sensitive Keys
----

/-
  A key is sensitive when it is one of the built-in or operator keys, ends in one of more than two
  bytes, or begins with a high-risk stem. Case and outer blanks do not count.
-/
def Sensitive (key : Text) : Prop :=
  let normalized := normalizeScrubKey low key
  let denied := (defaultScrubKeys ++ extraKeys).map (normalizeScrubKey low)
  normalized ≠ [] ∧ (normalized ∈ denied ∨
      (∃ deny ∈ denied, 2 < Text.byteLen deny ∧ deny <:+ normalized) ∨
      ∃ stem ∈ highRiskStems, stem <+: normalized)

theorem isSome_lookup_insert_iff (keys : GoMap Text Unit) (name key : Text) :
    ((keys.insert name ()).lookup key).isSome ↔ (keys.lookup key).isSome ∨ key = name := by
  rw [GoMap.lookup_insert_ite]
  split_ifs with hName
  · simp [hName]
  · simp [hName]

theorem isSome_lookup_foldl (keep : Text → Prop) [DecidablePred keep] {key : Text}
    (hKeep : keep key) (names : List Text) (start : GoMap Text Unit) :
    ((names.foldl (fun keys name => if keep name then keys.insert name () else keys)
        start).lookup key).isSome ↔ (start.lookup key).isSome ∨ key ∈ names := by
  induction names generalizing start with
  | nil => simp
  | cons name names ih =>
    rw [List.foldl_cons, ih, List.mem_cons, ← or_assoc]
    apply or_congr_left
    split_ifs with hName
    · exact isSome_lookup_insert_iff start name key
    · -- A name that is left out is not the key.
      have hNe : key ≠ name := by
        rintro rfl
        exact hName hKeep
      simp [hNe]

theorem lookup_newScrubber {key : Text} (hKey : key ≠ []) :
    ((newScrubber low extraKeys).keys.lookup key).isSome ↔
      key ∈ (defaultScrubKeys ++ extraKeys).map (normalizeScrubKey low) := by
  have hExtra := fun start =>
    isSome_lookup_foldl (fun name => name ≠ []) hKey (extraKeys.map (normalizeScrubKey low)) start
  have hBuiltin := @isSome_lookup_foldl (fun _ => True) _ key trivial
      (defaultScrubKeys.map (normalizeScrubKey low)) ∅
  simp only [List.foldl_map] at hExtra hBuiltin
  simp only [if_true] at hBuiltin
  rw [newScrubber, hExtra, hBuiltin, List.map_append, List.mem_append]
  simp

theorem any_suffix_newScrubber (key : Text) :
    (newScrubber low extraKeys).keys.keys.any (fun deny =>
        decide (2 < Text.byteLen deny) && deny.isSuffixOf key) = true ↔
      ∃ deny ∈ (defaultScrubKeys ++ extraKeys).map (normalizeScrubKey low),
        2 < Text.byteLen deny ∧ deny <:+ key := by
  rw [List.any_eq_true]
  apply exists_congr
  intro deny
  rw [Bool.and_eq_true, decide_eq_true_eq, List.isSuffixOf_iff_suffix]
  apply and_congr_left
  intro hBoth
  have hNonempty : deny ≠ [] := by
    rintro rfl
    exact absurd hBoth.1 (by decide)
  rw [← lookup_newScrubber low extraKeys hNonempty, AList.lookup_isSome, AList.mem_keys]

theorem Scrubber.isSensitiveKey_eq_true (s : Scrubber) (key : Text) : s.isSensitiveKey key = true ↔
      normalizeScrubKey s.low key ≠ [] ∧
        ((s.keys.lookup (normalizeScrubKey s.low key)).isSome = true ∨
          s.keys.keys.any (fun deny =>
            decide (2 < Text.byteLen deny) &&
              deny.isSuffixOf (normalizeScrubKey s.low key)) = true ∨
          highRiskStems.any (·.isPrefixOf (normalizeScrubKey s.low key)) = true) := by
  unfold Scrubber.isSensitiveKey
  generalize normalizeScrubKey s.low key = normalized
  dsimp only
  split_ifs with hEmpty hExact hEnd
  · simp [hEmpty]
  · exact iff_of_true rfl ⟨hEmpty, Or.inl hExact⟩
  · exact iff_of_true rfl ⟨hEmpty, Or.inr (Or.inl hEnd)⟩
  · simp only [hEmpty, hExact, hEnd, ne_eq, not_false_eq_true,
      true_and, false_or, Bool.false_eq_true]

theorem isSensitiveKey_iff (key : Text) :
    (newScrubber low extraKeys).isSensitiveKey key = true ↔ Sensitive low extraKeys key := by
  have hLow : (newScrubber low extraKeys).low = low := rfl
  have hStem : highRiskStems.any (·.isPrefixOf (normalizeScrubKey low key)) = true ↔
      ∃ stem ∈ highRiskStems, stem <+: normalizeScrubKey low key := by
    simp only [List.any_eq_true, List.isPrefixOf_iff_prefix]
  rw [Scrubber.isSensitiveKey_eq_true, hLow, hStem, any_suffix_newScrubber]
  apply and_congr_right
  intro hEmpty
  rw [lookup_newScrubber low extraKeys hEmpty]

----
-- Redaction
----

/- No entry on the way to a position is redacted, the entry at the position included. -/
def Open (redacts : Text → GoValue → Prop) : GoValue → List GoValue.Step → Prop
  | _, [] => True
  | v, step :: path =>
    ∀ w, v.child? step = some w → (∀ key, step = .key key → ¬ redacts key w) ∧ Open redacts w path

/-
  The outermost redacted entries hold the marker. Every open position has its leaf, its keys or its
  length as before.
-/
structure Redaction (redacts : Text → GoValue → Prop) (v out : GoValue) : Prop where
  marked :
    ∀ path key val, Open redacts v path → v.at? (path ++ [.key key]) = some val → redacts key val →
      out.at? (path ++ [.key key]) = some redactedValue
  kept :
    ∀ path, Open redacts v path → (out.at? path).map GoValue.shape = (v.at? path).map GoValue.shape

namespace Scrubber

variable (s : Scrubber)

/- What scrubbing makes of the value of an entry. -/
def scrubEntry (key : Text) (val : GoValue) : GoValue :=
  if s.shouldRedactKey key val then redactedValue
  else s.scrub val

theorem scrubMap_eq (members : List (Text × GoValue)) :
    s.scrubMap members = members.map (fun entry => (entry.1, s.scrubEntry entry.1 entry.2)) := by
  induction members with
  | nil => rfl
  | cons entry members ih =>
    rw [scrubMap, ih]
    rfl

theorem scrubList_eq (xs : List GoValue) : s.scrubList xs = xs.map s.scrub := by
  induction xs with
  | nil => rfl
  | cons x xs ih =>
    rw [scrubList, ih]
    rfl

theorem lookup_scrubMap (members : List (Text × GoValue)) (key : Text) :
    (s.scrubMap members).lookup key = (members.lookup key).map (s.scrubEntry key) := by
  induction members with
  | nil => rfl
  | cons entry members ih =>
    rw [scrubMap, List.lookup_cons, List.lookup_cons, ih]
    by_cases hKey : key = entry.1
    · subst hKey
      simp [scrubEntry]
    · have hBeq : (key == entry.1) = false := beq_eq_false_iff_ne.mpr hKey
      rw [hBeq]

theorem shape_scrub (v : GoValue) : (s.scrub v).shape = v.shape := by
  cases v with
  | list xs => simp [scrub, scrubList_eq, GoValue.shape]
  | map members => simp [scrub, scrubMap_eq, GoValue.shape, Function.comp_def]
  | _ => rfl

theorem child?_scrub_key (v : GoValue) (key : Text) :
    (s.scrub v).child? (.key key) = (v.child? (.key key)).map (s.scrubEntry key) := by
  cases v with
  | map members => exact s.lookup_scrubMap members key
  | _ => rfl

theorem child?_scrub_index (v : GoValue) (i : Nat) :
    (s.scrub v).child? (.index i) = (v.child? (.index i)).map s.scrub := by
  cases v with
  | list xs => simp [scrub, scrubList_eq, GoValue.child?]
  | _ => rfl

/- An open position holds the scrubbed value. -/
theorem at?_scrub {v : GoValue} {path : List GoValue.Step}
    (hOpen : Open (fun key val => s.shouldRedactKey key val = true) v path) :
    (s.scrub v).at? path = (v.at? path).map s.scrub := by
  induction path generalizing v with
  | nil => rfl
  | cons step path ih =>
    rw [GoValue.at?, GoValue.at?]
    cases step with
    | key key =>
      rw [child?_scrub_key]
      cases hChild : v.child? (.key key) with
      | none => rfl
      | some w =>
        rcases hOpen w hChild with ⟨hKey, hRest⟩
        have hEntry : s.scrubEntry key w = s.scrub w := if_neg (hKey key rfl)
        rw [Option.map_some, hEntry]
        exact ih hRest
    | index i =>
      rw [child?_scrub_index]
      cases hChild : v.child? (.index i) with
      | none => rfl
      | some w => exact ih (hOpen w hChild).2

theorem redaction_scrub (v : GoValue) :
    Redaction (fun key val => s.shouldRedactKey key val = true) v (s.scrub v) where
  marked := by
    intro path key val hOpen hVal hRedacts
    rw [GoValue.at?_append] at hVal ⊢
    rw [s.at?_scrub hOpen]
    cases hAt : v.at? path with
    | none => simp [hAt] at hVal
    | some w =>
      have hChild : w.child? (.key key) = some val := by simpa [hAt, GoValue.at?] using hVal
      have hEntry : s.scrubEntry key val = redactedValue := if_pos hRedacts
      simp [GoValue.at?, child?_scrub_key, hChild, hEntry]
  kept := by
    intro path hOpen
    rw [s.at?_scrub hOpen, Option.map_map]
    congr 1
    funext w
    exact s.shape_scrub w

end Scrubber

----
-- A Second Pass
----

/- An entry of a map that is reached without passing through a redacted one. -/
inductive Reaches (s : Scrubber) : GoValue → Text → GoValue → Prop where
  | here
      {members : List (Text × GoValue)}
      {key : Text}
      {val : GoValue}
      (hMem : (key, val) ∈ members) :
      Reaches s (.map members) key val
  | member
      {members : List (Text × GoValue)}
      {parent key : Text}
      {child val : GoValue}
      (hMem : (parent, child) ∈ members)
      (hKept : s.shouldRedactKey parent child = false)
      (hBelow : Reaches s child key val) :
      Reaches s (.map members) key val
  | element
      {xs : List GoValue}
      {child val : GoValue}
      {key : Text}
      (hMem : child ∈ xs)
      (hBelow : Reaches s child key val) :
      Reaches s (.list xs) key val

/- No key of the marker is sensitive. -/
def MarkerKept (s : Scrubber) : Prop :=
  s.isSensitiveKey "redacted" = false ∧ s.isSensitiveKey "reason" = false

/-
  Every entry redacted for what it carries keeps its marker: its key has the marker redacted again,
  or no key of the marker is sensitive.
-/
def Settled (s : Scrubber) (v : GoValue) : Prop :=
  ∀ key val, Reaches s v key val → isCredentialCarrier s.low key val = true →
      s.shouldRedactKey key redactedValue = true ∨ MarkerKept s

namespace Scrubber

variable (s : Scrubber)

theorem isCredentialCarrier_scrub (key : Text) (val : GoValue) :
    isCredentialCarrier s.low key (s.scrub val) = isCredentialCarrier s.low key val := by
  cases val with
  | map members => simp [scrub, isCredentialCarrier, lookup_scrubMap]
  | _ => rfl

theorem shouldRedactKey_scrub (key : Text) (val : GoValue) :
    s.shouldRedactKey key (s.scrub val) = s.shouldRedactKey key val := by
  rw [shouldRedactKey, shouldRedactKey, isCredentialCarrier_scrub]

theorem scrub_redactedValue_iff : s.scrub redactedValue = redactedValue ↔ MarkerKept s := by
  have hBool : ∀ key b, isCredentialCarrier s.low key (.bool b) = false := fun _ _ => rfl
  have hStr : ∀ key t, isCredentialCarrier s.low key (.str t) = false := fun _ _ => rfl
  simp only [redactedValue, scrub, scrubMap, shouldRedactKey, hBool, hStr, MarkerKept]
  cases s.isSensitiveKey "redacted" <;>
    cases s.isSensitiveKey "reason" <;>
      simp

/- The entry comes out of a second pass as out of the first. -/
def Steady (key : Text) (val : GoValue) : Prop :=
  s.scrubEntry key (s.scrubEntry key val) = s.scrubEntry key val

theorem steady_of_redacted {key : Text} {val : GoValue}
    (hRedacted : s.shouldRedactKey key val = true) :
    s.Steady key val ↔ (isCredentialCarrier s.low key val = true →
        s.shouldRedactKey key redactedValue = true ∨ MarkerKept s) := by
  have hEntry : s.scrubEntry key val = redactedValue := if_pos hRedacted
  rw [Steady, hEntry, scrubEntry]
  by_cases hAgain : s.shouldRedactKey key redactedValue = true
  · simp [hAgain]
  · -- Then the key is not sensitive, so the value carries.
    have hKey : ¬ s.isSensitiveKey key = true := by
      intro hKey
      exact hAgain (if_pos hKey)
    have hCarries : isCredentialCarrier s.low key val = true := by
      rwa [shouldRedactKey, if_neg hKey] at hRedacted
    simp [hAgain, hCarries, scrub_redactedValue_iff]

theorem steady_of_kept {key : Text} {val : GoValue} (hKept : s.shouldRedactKey key val = false) :
    s.Steady key val ↔ s.scrub (s.scrub val) = s.scrub val := by
  have hEntry : s.scrubEntry key val = s.scrub val := by simp [scrubEntry, hKept]
  have hAgain : s.scrubEntry key (s.scrub val) = s.scrub (s.scrub val) := by
    simp [scrubEntry, shouldRedactKey_scrub, hKept]
  rw [Steady, hEntry, hAgain]

theorem scrubMap_scrubMap_iff (members : List (Text × GoValue)) :
    s.scrubMap (s.scrubMap members) = s.scrubMap members ↔
      ∀ entry ∈ members, s.Steady entry.1 entry.2 := by
  rw [scrubMap_eq, scrubMap_eq, List.map_map, List.map_inj_left]
  simp [Steady]

theorem scrubList_scrubList_iff (xs : List GoValue) :
    s.scrubList (s.scrubList xs) = s.scrubList xs ↔ ∀ x ∈ xs, s.scrub (s.scrub x) = s.scrub x := by
  rw [scrubList_eq, scrubList_eq, List.map_map, List.map_inj_left]
  simp

theorem settled_map_iff (members : List (Text × GoValue)) :
    Settled s (.map members) ↔ ∀ entry ∈ members,
        (isCredentialCarrier s.low entry.1 entry.2 = true →
          s.shouldRedactKey entry.1 redactedValue = true ∨ MarkerKept s) ∧
        (s.shouldRedactKey entry.1 entry.2 = false → Settled s entry.2) := by
  constructor
  · intro hSettled entry hMem
    refine ⟨hSettled entry.1 entry.2 (.here hMem), ?_⟩
    intro hKept key val hBelow
    exact hSettled key val (.member hMem hKept hBelow)
  · intro hAll key val hReaches
    cases hReaches with
    | here hMem => exact (hAll _ hMem).1
    | member hMem hKept hBelow => exact (hAll _ hMem).2 hKept key val hBelow

theorem settled_list_iff (xs : List GoValue) : Settled s (.list xs) ↔ ∀ x ∈ xs, Settled s x := by
  constructor
  · intro hSettled x hMem key val hBelow
    exact hSettled key val (.element hMem hBelow)
  · intro hAll key val hReaches
    cases hReaches with
    | element hMem hBelow => exact hAll _ hMem key val hBelow

/- A second pass changes nothing just when the markers stay. -/
theorem scrub_scrub_iff (v : GoValue) : s.scrub (s.scrub v) = s.scrub v ↔ Settled s v := by
  induction v using GoValue.induct with
  | leaf v hLeaf =>
    have hSame : s.scrub v = v := by cases v <;> first | rfl | exact Bool.noConfusion hLeaf
    refine iff_of_true (by rw [hSame, hSame]) ?_
    intro key val hReaches
    cases hReaches <;> exact Bool.noConfusion hLeaf
  | list xs ih =>
    rw [scrub, scrub, GoValue.list.injEq, scrubList_scrubList_iff, settled_list_iff]
    exact forall₂_congr ih
  | map members ih =>
    rw [scrub, scrub, GoValue.map.injEq, scrubMap_scrubMap_iff, settled_map_iff]
    apply forall₂_congr
    intro entry hMem
    by_cases hRedacted : s.shouldRedactKey entry.1 entry.2 = true
    · rw [s.steady_of_redacted hRedacted]
      simp [hRedacted]
    · have hKept := Bool.eq_false_of_not_eq_true hRedacted
      have hCarries : isCredentialCarrier s.low entry.1 entry.2 = false := by
        by_contra hCarries
        rw [shouldRedactKey] at hRedacted
        split_ifs at hRedacted with hKey
        · exact hRedacted rfl
        · exact hCarries (Bool.eq_false_of_not_eq_true hRedacted)
      rw [s.steady_of_kept hKept, ih entry hMem]
      simp [hKept, hCarries]

end Scrubber

end Collect

end Kollect
