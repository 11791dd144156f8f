import Kollect.Foundation.GoMemory
import Kollect.Collect.Scrub

/-
  Scrubbing in memory: the maps and slices of the value are copied, the value itself is only read.

  A copy is not reachable before it is returned, so it is put into memory when it is complete.

  Key theorems include:
    * `scrubs_spec`
    * `redactsOnce_iff_settled`
-/

namespace Kollect

namespace Collect

open Memory

----
-- Copies
----

def isCredentialCarrierWord (low : Lowering) (mem : Memory) (key : Text) : Word → Bool
  | .map addr =>
    match mem[addr]? with
    | some (.map entries) => carriesCredential low key (fun k => (entries.lookup k).isSome)
    | _ => false
  | _ => false

namespace Scrubber

variable (s : Scrubber)

def shouldRedactWord (mem : Memory) (key : Text) (w : Word) : Bool :=
  if s.isSensitiveKey key then true
  else isCredentialCarrierWord s.low mem key w

def redactedCell : Cell :=
  .map [("redacted", .leaf (.bool true)), ("reason", .leaf (.str scrubReason))]

/- One round of the loop over a map. -/
def visitEntry (scrubOne : Memory → Word → Option (Memory × Word))
    (mem : Memory) (entry : Text × Word) : Option (Memory × (Text × Word)) :=
  if s.shouldRedactWord mem entry.1 entry.2 then
    some (mem ++ [redactedCell], (entry.1, .map mem.length))
  else do
    let (mem, w) ← scrubOne mem entry.2
    return (mem, (entry.1, w))

/- `fuel` bounds the depth of the recursion; a word that is no value of the memory gives nothing. -/
def scrubWord : Nat → Memory → Word → Option (Memory × Word)
  | 0, _, _ => none
  | _ + 1, mem, .leaf v => some (mem, .leaf v)
  | fuel + 1, mem, .slice addr =>
    match mem[addr]? with
    | some (.slice words) => do
        let (mem, out) ← visitAll (scrubWord fuel) mem words
        return (mem ++ [.slice out], .slice mem.length)
    | _ => none
  | fuel + 1, mem, .map addr =>
    match mem[addr]? with
    | some (.map entries) => do
        let (mem, out) ← visitAll (s.visitEntry (scrubWord fuel)) mem entries
        return (mem ++ [.map out], .map mem.length)
    | _ => none

end Scrubber

/- With enough fuel, scrubbing ends with this copy. -/
def Scrubs (s : Scrubber) (mem : Memory) (w : Word) (mem' : Memory) (w' : Word) : Prop :=
  ∃ enough, ∀ fuel, enough ≤ fuel → s.scrubWord fuel mem w = some (mem', w')

/-
  The first pass leaves every cell as it was and makes a redacted copy; the second makes the same of
  the copy.
-/
def RedactsOnce (s : Scrubber) (redacts : Text → GoValue → Prop)
    (mem : Memory) (w : Word) (v : GoValue) : Prop :=
  ∃ mem₁ w₁ out mem₂ w₂, Scrubs s mem w mem₁ w₁ ∧ mem <+: mem₁ ∧
      Holds mem₁ w₁ out ∧ Redaction redacts v out ∧ Scrubs s mem₁ w₁ mem₂ w₂ ∧ Holds mem₂ w₂ out

----
-- Fuel
----

namespace Scrubber

variable {s : Scrubber}

theorem visitEntry_mono {scrubOne scrubOne' : Memory → Word → Option (Memory × Word)}
    (hScrub : ∀ mem w found, scrubOne mem w = some found → scrubOne' mem w = some found)
    (mem : Memory) (entry : Text × Word) (found : Memory × (Text × Word))
    (hFound : s.visitEntry scrubOne mem entry = some found) :
    s.visitEntry scrubOne' mem entry = some found := by
  rw [visitEntry] at hFound ⊢
  split_ifs at hFound ⊢
  · exact hFound
  · rcases Option.bind_eq_some_iff.mp hFound with ⟨copy, hCopy, hReturn⟩
    rw [hScrub _ _ _ hCopy]
    exact hReturn

variable {fuel : Nat} {mem : Memory} {w : Word} {found : Memory × Word}

theorem scrubWord_succ (hFound : s.scrubWord fuel mem w = some found) :
    s.scrubWord (fuel + 1) mem w = some found := by
  induction fuel generalizing mem w found with
  | zero => exact nomatch hFound
  | succ fuel ih =>
    cases w with
    | leaf v => exact hFound
    | slice addr =>
      rw [scrubWord] at hFound ⊢
      split at hFound
      · rename_i words hCell
        rcases Option.bind_eq_some_iff.mp hFound with ⟨copied, hCopied, hReturn⟩
        have hMore := visitAll_mono (fun mem w found => @ih mem w found) hCopied
        rw [hMore]
        exact hReturn
      · exact nomatch hFound
    | map addr =>
      rw [scrubWord] at hFound ⊢
      split at hFound
      · rename_i entries hCell
        rcases Option.bind_eq_some_iff.mp hFound with ⟨copied, hCopied, hReturn⟩
        have hMore := visitAll_mono (visitEntry_mono (fun mem w found => @ih mem w found)) hCopied
        rw [hMore]
        exact hReturn
      · exact nomatch hFound

theorem scrubWord_le {fuel' : Nat} (hLe : fuel ≤ fuel')
    (hFound : s.scrubWord fuel mem w = some found) : s.scrubWord fuel' mem w = some found := by
  induction hLe with
  | refl => exact hFound
  | step _ ih => exact scrubWord_succ ih

----
-- The Copy
----

variable {members : List (Text × GoValue)}

theorem isSome_lookup_entries {entries : List (Text × Word)}
    (hAll : List.Forall₂ (HoldsMember mem) entries members) (key : Text) :
    (entries.lookup key).isSome = (members.lookup key).isSome := by
  induction hAll with
  | nil => rfl
  | @cons entry member _ _ hEntry _ ih =>
    rw [List.lookup_cons, List.lookup_cons, hEntry.1]
    cases key == member.1
    · exact ih
    · rfl

theorem shouldRedactWord_eq {v : GoValue} (hHolds : Holds mem w v) (key : Text) :
    s.shouldRedactWord mem key w = s.shouldRedactKey key v := by
  have hCarrier : isCredentialCarrierWord s.low mem key w = isCredentialCarrier s.low key v := by
    cases v with
    | map members =>
      rcases holds_map_iff.mp hHolds with ⟨addr, entries, rfl, hCell, hAll⟩
      have hHas := funext (isSome_lookup_entries hAll)
      simp only [isCredentialCarrierWord, hCell, isCredentialCarrier, hHas]
    | _ =>
      cases hHolds
      all_goals rfl
  rw [shouldRedactWord, shouldRedactKey, hCarrier]

/- Scrubbing a word of this value ends, and copies it. -/
def Copies (s : Scrubber) (v : GoValue) (fuel : Nat) : Prop :=
  ∀ mem w, Holds mem w v →
    ∃ mem' w', s.scrubWord fuel mem w = some (mem', w') ∧ mem <+: mem' ∧ Holds mem' w' (s.scrub v)

theorem getElem?_length_append (mem : Memory) (cell : Cell) :
    (mem ++ [cell])[mem.length]? = some cell := by
  simp

theorem holds_redactedCell (mem : Memory) :
    Holds (mem ++ [redactedCell]) (.map mem.length) redactedValue := by
  have hTrue : Holds (mem ++ [redactedCell]) (.leaf (.bool true)) (.bool true) := .leaf rfl
  have hReason : Holds (mem ++ [redactedCell])
      (.leaf (.str scrubReason)) (.str scrubReason) := .leaf rfl
  apply holds_map_iff.mpr
  exact ⟨mem.length, _, rfl, getElem?_length_append mem _,
    .cons ⟨rfl, hTrue⟩ (.cons ⟨rfl, hReason⟩ .nil)⟩

theorem copies_list {xs : List GoValue} (hXs : ∀ x ∈ xs, Copies s x fuel) :
    Copies s (.list xs) (fuel + 1) := by
  intro mem w hHolds
  rcases holds_list_iff.mp hHolds with ⟨addr, words, rfl, hCell, hAll⟩
  rcases visitAll_spec (fun mem w x => Holds mem w (s.scrub x))
      (fun _ _ _ _ hGrows hCopy => hCopy.mono hGrows) hAll
      (fun w x hMem hWord mem₁ hGrows => hXs x hMem mem₁ w (hWord.mono hGrows))
      List.prefix_rfl with
    ⟨mem', out, hOut, hGrows, hCopies⟩
  have hMore : mem' <+: mem' ++ [.slice out] := List.prefix_append _ _
  refine ⟨mem' ++ [.slice out], .slice mem'.length, ?_, hGrows.trans hMore, ?_⟩
  · simp only [scrubWord, hCell, hOut, Option.bind_eq_bind, Option.bind_some]
    rfl
  · rw [scrub, scrubList_eq]
    apply holds_list_iff.mpr
    refine ⟨mem'.length, out, rfl, getElem?_length_append mem' _, ?_⟩
    rw [List.forall₂_map_right_iff]
    exact hCopies.imp (fun _ _ hCopy => hCopy.mono hMore)

/- A member of a map as it stands in the copy. -/
def scrubMember (s : Scrubber) (member : Text × GoValue) : Text × GoValue :=
  (member.1, s.scrubEntry member.1 member.2)

theorem visitEntry_spec {mem₁ : Memory} {entry : Text × Word} {member : Text × GoValue}
    (hMember : Copies s member.2 fuel) (hEntry : HoldsMember mem entry member)
    (hGrows : mem <+: mem₁) :
    ∃ mem₂ copy, s.visitEntry (s.scrubWord fuel) mem₁ entry = some (mem₂, copy) ∧ mem₁ <+: mem₂ ∧
      HoldsMember mem₂ copy (s.scrubMember member) := by
  rcases hEntry with ⟨hKey, hHolds⟩
  have hHolds₁ := hHolds.mono hGrows
  rw [visitEntry, shouldRedactWord_eq hHolds₁, hKey, scrubMember, scrubEntry]
  by_cases hRedact : s.shouldRedactKey member.1 member.2 = true
  · rw [if_pos hRedact, if_pos hRedact]
    exact ⟨_, _, rfl, List.prefix_append _ _, rfl, holds_redactedCell mem₁⟩
  · rw [if_neg hRedact, if_neg hRedact]
    rcases hMember mem₁ entry.2 hHolds₁ with ⟨mem₂, w', hScrub, hMore, hCopy⟩
    refine ⟨mem₂, (member.1, w'), ?_, hMore, rfl, hCopy⟩
    rw [hScrub]
    rfl

theorem copies_map (hMembers : ∀ member ∈ members, Copies s member.2 fuel) :
    Copies s (.map members) (fuel + 1) := by
  intro mem w hHolds
  rcases holds_map_iff.mp hHolds with ⟨addr, entries, rfl, hCell, hAll⟩
  rcases visitAll_spec (fun mem copy member => HoldsMember mem copy (s.scrubMember member))
      (fun _ _ _ _ hGrows hCopy => hCopy.mono hGrows) hAll
      (fun entry member hMem hEntry mem₁ hGrows =>
        visitEntry_spec (hMembers member hMem) hEntry hGrows)
      List.prefix_rfl with
    ⟨mem', out, hOut, hGrows, hCopies⟩
  have hMore : mem' <+: mem' ++ [.map out] := List.prefix_append _ _
  refine ⟨mem' ++ [.map out], .map mem'.length, ?_, hGrows.trans hMore, ?_⟩
  · simp only [scrubWord, hCell, hOut, Option.bind_eq_bind, Option.bind_some]
    rfl
  · rw [scrub, scrubMap_eq]
    apply holds_map_iff.mpr
    refine ⟨mem'.length, out, rfl, getElem?_length_append mem' _, ?_⟩
    rw [List.forall₂_map_right_iff]
    exact hCopies.imp (fun _ _ hCopy => hCopy.mono hMore)

theorem exists_bound {α : Type} {xs : List α} {P : α → Nat → Prop}
    (hEach : ∀ x ∈ xs, ∃ n, ∀ m, n ≤ m → P x m) : ∃ n, ∀ m, n ≤ m → ∀ x ∈ xs, P x m := by
  induction xs with
  | nil => exact ⟨0, fun _ _ _ hMem => nomatch hMem⟩
  | cons x xs ih =>
    rcases hEach x List.mem_cons_self with ⟨n, hFirst⟩
    rcases ih (fun y hMem => hEach y (List.mem_cons_of_mem x hMem)) with ⟨k, hRest⟩
    refine ⟨max n k, ?_⟩
    intro m hLe y hMem
    rcases List.mem_cons.mp hMem with rfl | hMem
    · exact hFirst m (by omega)
    · exact hRest m (by omega) y hMem

theorem copies (s : Scrubber) (v : GoValue) : ∃ n, ∀ fuel, n ≤ fuel → Copies s v fuel := by
  induction v using GoValue.induct with
  | leaf v hLeaf =>
    refine ⟨1, ?_⟩
    intro fuel hFuel mem w hHolds
    rcases fuel with _ | fuel
    · omega
    have hSame : s.scrub v = v := by cases v <;> first | rfl | exact Bool.noConfusion hLeaf
    rw [hSame]
    cases hHolds with
    | leaf _ => exact ⟨mem, .leaf v, rfl, List.prefix_rfl, .leaf hLeaf⟩
    | slice | map => exact Bool.noConfusion hLeaf
  | list xs ih =>
    rcases exists_bound ih with ⟨n, hAll⟩
    refine ⟨n + 1, ?_⟩
    intro fuel hFuel
    rcases fuel with _ | fuel
    · omega
    · exact copies_list (hAll fuel (by omega))
  | map members ih =>
    rcases exists_bound ih with ⟨n, hAll⟩
    refine ⟨n + 1, ?_⟩
    intro fuel hFuel
    rcases fuel with _ | fuel
    · omega
    · exact copies_map (hAll fuel (by omega))

end Scrubber

variable {mem : Memory} {w : Word} {v : GoValue}

/- Scrubbing ends, changes no cell, and copies the value. -/
theorem scrubs_spec (s : Scrubber) (hHolds : Holds mem w v) :
    ∃ mem' w', Scrubs s mem w mem' w' ∧ mem <+: mem' ∧ Holds mem' w' (s.scrub v) := by
  rcases Scrubber.copies s v with ⟨n, hCopies⟩
  rcases hCopies n (Nat.le_refl n) mem w hHolds with ⟨mem', w', hScrub, hGrows, hCopy⟩
  refine ⟨mem', w', ⟨n, ?_⟩, hGrows, hCopy⟩
  intro fuel hLe
  exact Scrubber.scrubWord_le hLe hScrub

theorem Scrubs.unique {s : Scrubber} {mem₁ mem₂ : Memory} {w₁ w₂ : Word}
    (hFirst : Scrubs s mem w mem₁ w₁) (hSecond : Scrubs s mem w mem₂ w₂) :
    mem₁ = mem₂ ∧ w₁ = w₂ := by
  rcases hFirst with ⟨n, hFirst⟩
  rcases hSecond with ⟨k, hSecond⟩
  have hEq := (hFirst (max n k) (by omega)).symm.trans (hSecond (max n k) (by omega))
  simpa using hEq

theorem holds_of_scrubs {s : Scrubber} {mem' : Memory} {w' : Word} (hHolds : Holds mem w v)
    (hScrubs : Scrubs s mem w mem' w') : mem <+: mem' ∧ Holds mem' w' (s.scrub v) := by
  rcases scrubs_spec s hHolds with ⟨mem₁, w₁, hFirst, hGrows, hCopy⟩
  rcases hFirst.unique hScrubs with ⟨rfl, rfl⟩
  exact ⟨hGrows, hCopy⟩

----
-- Both Passes
----

variable (low : Lowering) (extraKeys : List Text)

/- What the marker replaces, in the terms of the key lists. -/
def Redacts (key : Text) (val : GoValue) : Prop :=
  Sensitive low extraKeys key ∨ isCredentialCarrier low key val = true

theorem shouldRedactKey_iff (key : Text) (val : GoValue) :
    (newScrubber low extraKeys).shouldRedactKey key val = true ↔ Redacts low extraKeys key val := by
  have hLow : (newScrubber low extraKeys).low = low := rfl
  rw [Redacts, ← isSensitiveKey_iff, Scrubber.shouldRedactKey, hLow]
  split_ifs with hKey
  · exact iff_of_true rfl (Or.inl hKey)
  · exact (or_iff_right hKey).symm

theorem redactsOnce_iff_scrub_scrub (hHolds : Holds mem w v) :
    RedactsOnce (newScrubber low extraKeys) (Redacts low extraKeys) mem w v ↔
      (newScrubber low extraKeys).scrub ((newScrubber low extraKeys).scrub v) =
        (newScrubber low extraKeys).scrub v := by
  have hRedaction : Redaction (Redacts low extraKeys) v ((newScrubber low extraKeys).scrub v) := by
    have hCode := (newScrubber low extraKeys).redaction_scrub v
    simpa only [shouldRedactKey_iff] using hCode
  generalize newScrubber low extraKeys = s at hRedaction ⊢
  constructor
  · rintro ⟨mem₁, w₁, out, mem₂, w₂, hFirst, -, hOut, -, hSecond, hAgain⟩
    have hOut₁ := (holds_of_scrubs hHolds hFirst).2
    have hOut₂ := (holds_of_scrubs hOut₁ hSecond).2
    rw [hOut₂.unique hAgain, hOut.unique hOut₁]
  · intro hSame
    rcases scrubs_spec s hHolds with ⟨mem₁, w₁, hFirst, hGrows, hOut⟩
    rcases scrubs_spec s hOut with ⟨mem₂, w₂, hSecond, -, hAgain⟩
    rw [hSame] at hAgain
    exact ⟨mem₁, w₁, s.scrub v, mem₂, w₂, hFirst, hGrows, hOut, hRedaction, hSecond, hAgain⟩

/-
  Scrubbing redacts the outermost entries and nothing else, in a copy, and a second pass changes
  nothing, just when every entry redacted for what it carries keeps its marker.
-/
theorem redactsOnce_iff_settled (low : Lowering) (extraKeys : List Text) {mem : Memory}
    {w : Word} {v : GoValue} (hHolds : Holds mem w v) :
    RedactsOnce (newScrubber low extraKeys) (Redacts low extraKeys) mem w v ↔
      Settled (newScrubber low extraKeys) v := by
  rw [redactsOnce_iff_scrub_scrub low extraKeys hHolds]
  exact (newScrubber low extraKeys).scrub_scrub_iff v

def asciiLowering : Lowering where
  toLower := Char.toLower
  ascii _ _ := rfl

/- A TLS section with its private key, in memory. -/
def tlsMemory : Memory := [.map [("key", .leaf (.str "pem"))], .map [("tls", .map 0)]]

def tlsValue : GoValue := .map [("tls", .map [("key", .str "pem")])]

theorem holds_tlsValue : Holds tlsMemory (.map 1) tlsValue := by
  have hKey : Holds tlsMemory (.leaf (.str "pem")) (.str "pem") := .leaf rfl
  have hTls : Holds tlsMemory (.map 0) (.map [("key", .str "pem")]) :=
    holds_map_iff.mpr ⟨0, _, rfl, rfl, .cons ⟨rfl, hKey⟩ .nil⟩
  exact holds_map_iff.mpr ⟨1, _, rfl, rfl, .cons ⟨rfl, hTls⟩ .nil⟩

/- The built-in keys leave the marker alone. -/
theorem tls_is_redacted_once : RedactsOnce (newScrubber asciiLowering [])
      (Redacts asciiLowering []) tlsMemory (.map 1) tlsValue :=
  (redactsOnce_iff_settled asciiLowering [] holds_tlsValue).mpr
    (fun _ _ _ _ => Or.inr ⟨by decide +kernel, by decide +kernel⟩)

/-
  The operator key `reason` has the second pass redact inside the marker that the first put in place
  of the TLS section.
-/
theorem marker_is_redacted_again : ¬ RedactsOnce (newScrubber asciiLowering ["reason"])
      (Redacts asciiLowering ["reason"]) tlsMemory (.map 1)
      tlsValue := by
  rw [redactsOnce_iff_scrub_scrub asciiLowering ["reason"] holds_tlsValue]
  intro hSame
  have hInside := congrArg
    (fun v : GoValue => (v.at? [.key "tls", .key "reason", .key "reason"]).isSome) hSame
  exact absurd hInside (by decide +kernel)

end Collect

end Kollect
