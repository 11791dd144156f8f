import Kollect.Export.Envelope
import Kollect.Foundation.Path

/-
  Parts of an export that is too large for one envelope (`export/partition.go`).

  Key theorems include:
    * `exists_groups`
    * `getElem?_partitionEnvelopes`
-/

namespace Kollect
namespace Export

open Collect

----
-- Object Paths Of Parts
----

/- A word and a number of at least four digits. -/
def numbered (word : Text) (n : Nat) : Text := word ++ Text.digitsPadded 10 4 n

def partSuffix (index total : Nat) : Text := numbered ".part-" index ++ numbered "-of-" total

/- The suffix goes in front of the extension. -/
def partitionObjectPath (baseObjectPath : Text) (index total : Nat) : Text :=
  if total ≤ 1 then baseObjectPath
  else
    let (dir, file) := Path.splitFile baseObjectPath
    match Text.lastIndex '.' file with
    | some (dot + 1) =>
      Path.joinClean [dir, file.take (dot + 1) ++ partSuffix index total ++ file.drop (dot + 1)]
    | _ => Path.joinClean [dir, file ++ partSuffix index total]

/- What a part puts between the name and the extension. -/
def partMarker (index total : Nat) : Text := if total ≤ 1 then [] else partSuffix index total

variable {n : Nat}

variable {index total : Nat}

theorem mem_partMarker {c : Char} (hC : c ∈ partMarker index total) :
    c.isDigit = true ∨ c ∈ (".part-of" : String).toList := by
  unfold partMarker at hC
  split_ifs at hC
  · cases hC
  · simp only [partSuffix, numbered, List.mem_append] at hC
    have hWords : ∀ word ∈ [(".part-" : Text), "-of-"],
        ∀ c ∈ word, c ∈ (".part-of" : String).toList := by
      simp
    rcases hC with (hFront | hIndex) | hMiddle | hTotal
    · exact .inr (hWords _ (by simp) c hFront)
    · exact .inl (Text.isDigit_of_mem_digitsPadded hIndex)
    · exact .inr (hWords _ (by simp) c hMiddle)
    · exact .inl (Text.isDigit_of_mem_digitsPadded hTotal)

theorem slash_notMem_partMarker (index total : Nat) : '/' ∉ partMarker index total := by
  intro hMem
  rcases mem_partMarker hMem with hDigit | hOther
  · revert hDigit
    decide
  · revert hOther
    decide

theorem plain_part {name : Text} (hName : name ≠ []) {ext : Text} :
    Path.Plain (name ++ partSuffix index total ++ '.' :: ext) := by
  have hLong : 2 < (name ++ partSuffix index total ++ '.' :: ext).length := by
    have hOne := List.length_pos_iff.mpr hName
    have hFront : (".part-" : Text).length = 6 := rfl
    simp only [partSuffix, numbered, List.length_append, List.length_cons, hFront]
    omega
  refine ⟨?_, ?_, ?_⟩ <;> intro hEq <;> rw [hEq] at hLong <;>
    simp at hLong

theorem partitionObjectPath_eq {root ns name : Text} {ext : Text} (hRoot : '/' ∉ root)
    (hRootPlain : Path.Plain root) (hNs : '/' ∉ ns) (hNsPlain : Path.Plain ns) (hName : '/' ∉ name)
    (hNameNe : name ≠ []) (hExt : '/' ∉ ext) (hExtDot : '.' ∉ ext) (index total : Nat) :
    partitionObjectPath (root ++ '/' :: (ns ++ '/' :: (name ++ '.' :: ext))) index total =
      root ++ '/' :: (ns ++ '/' :: (name ++ partMarker index total ++ '.' :: ext)) := by
  by_cases hTotal : total ≤ 1
  · simp [partitionObjectPath, partMarker, hTotal]
  · have hFile : '/' ∉ name ++ '.' :: ext := by simp [hName, hExt]
    have hSplit := Path.splitFile_append (root ++ '/' :: ns) hFile
    rw [List.append_assoc, List.cons_append] at hSplit
    obtain ⟨dot, hDot⟩ : ∃ dot, name.length = dot + 1 :=
      Nat.exists_eq_succ_of_ne_zero (by simpa using hNameNe)
    have hIndex := Text.lastIndex_append name hExtDot
    rw [hDot] at hIndex
    have hMarker : partMarker index total = partSuffix index total := if_neg hTotal
    have hSuffix := slash_notMem_partMarker index total
    rw [hMarker] at hSuffix
    rw [partitionObjectPath, if_neg hTotal, hSplit, hMarker]
    simp only [hIndex]
    rw [← hDot, List.take_left, List.drop_left]
    exact Path.joinClean_dir hRoot hRootPlain hNs hNsPlain (by simp [hName, hSuffix, hExt])
      (plain_part hNameNe)

theorem partMarker_of_many (hMany : 1 < total) : partMarker index total = partSuffix index total :=
  if_neg (Nat.not_le_of_lt hMany)

theorem partSuffix_inj {i j m : Nat} (hEq : partSuffix i n = partSuffix j m) : i = j ∧ n = m := by
  have hDash : ∀ k : Nat, '-' ∉ Text.digitsPadded 10 4 k := by
    intro k hMem
    have hDigit := Text.isDigit_of_mem_digitsPadded hMem
    revert hDigit
    decide
  have hMiddle : ("-of-" : Text) = '-' :: ("of-" : Text) := by decide
  unfold partSuffix numbered at hEq
  rw [List.append_assoc, List.append_assoc, List.append_cancel_left_eq, hMiddle, List.cons_append,
    List.cons_append, Text.append_sep_inj (hDash i) (hDash j), List.append_cancel_left_eq] at hEq
  exact ⟨Text.digitsPadded_inj hEq.1, Text.digitsPadded_inj hEq.2⟩

/- A marked part has no other part's marker. -/
theorem partMarker_inj {i j m : Nat} (hMany : 1 < n) (hEq : partMarker i n = partMarker j m) :
    i = j ∧ n = m := by
  rw [partMarker_of_many hMany] at hEq
  unfold partMarker at hEq
  split_ifs at hEq
  · have hFront : (".part-" : Text) ≠ [] := by decide
    unfold partSuffix numbered at hEq
    simp only [List.append_eq_nil_iff] at hEq
    exact absurd hEq.1.1 hFront
  · exact partSuffix_inj hEq

----
-- Partitioning
----

/- The items sorted by their wire form. -/
def stableItems (items : List Item) : List Item :=
  Text.sortBy (fun item => Json.encode (itemJson item)) items

def envelopeSize (sha : Digest) (items : List Item) (metadata : Metadata) : Int :=
  Text.byteLen (marshalEnvelope sha items metadata)

def tooLarge (maxBytes : Int) : Text :=
  "single item export envelope exceeds maxExportBytes (" ++ Text.ofInt maxBytes ++ ")"

/-
  The loop over the sorted items: `current` is the group that is being filled, and an item that does
  not fit in starts the next one.
-/
def groupItems (fits : List Item → Bool) (err : Text) :
    List Item → List Item → Except Text (List (List Item))
  | current, [] => .ok (if current.isEmpty then [] else [current])
  | current, item :: rest =>
    if fits (current ++ [item]) then groupItems fits err (current ++ [item]) rest
    else if current.isEmpty then .error err
    else if !fits [item] then .error err
    else (groupItems fits err [item] rest).map (fun groups => current :: groups)

/-
  One group if the whole fits. Otherwise the groups are measured with a marker as wide as any part
  can have.
-/
def partitionItemGroups (sha : Digest) (sorted : List Item) (metadata : Metadata)
    (maxBytes : Int) : Except Text (List (List Item)) :=
  if maxBytes ≤ 0 ∨ envelopeSize sha sorted metadata ≤ maxBytes then .ok [sorted]
  else if sorted.isEmpty then .ok [[]]
  else
    let measureMeta :=
      { metadata with
        partIndex := sorted.length
        partTotal := sorted.length }
    groupItems (fun candidate => envelopeSize sha candidate measureMeta ≤ maxBytes)
      (tooLarge maxBytes) [] sorted

/- One bounded slice of an export. The envelope is the document; its wire form is what is stored. -/
structure EnvelopePartition where
  index : Nat
  total : Nat
  itemCount : Nat
  checksum : Text
  envelope : Json
deriving DecidableEq

/- Only a set of several parts carries the marker. -/
def partMetadata (metadata : Metadata) (index total : Nat) : Metadata :=
  if 1 < total then { metadata with partIndex := index, partTotal := total }
  else metadata

def partOf (sha : Digest) (metadata : Metadata) (index total : Nat)
    (group : List Item) : EnvelopePartition where
  index := index
  total := total
  itemCount := group.length
  checksum := itemsFingerprint sha group
  envelope := envelopeJson sha group (partMetadata metadata index total)

def partitionEnvelopes (sha : Digest) (items : List Item) (metadata : Metadata)
    (maxBytes : Int) : Except Text (List EnvelopePartition) :=
  (partitionItemGroups sha (stableItems items) metadata maxBytes).map fun groups =>
      groups.mapIdx fun i group => partOf sha metadata (i + 1) groups.length group

variable {fits : List Item → Bool} {groups : List (List Item)}

/- The groups have the items in order; none is empty, and each fits. -/
theorem groupItems_spec {err : Text} {current rest : List Item}
    (hCurrent : current ≠ [] → fits current = true)
    (hGroups : groupItems fits err current rest = .ok groups) :
    groups.flatten = current ++ rest ∧ ∀ group ∈ groups, group ≠ [] ∧ fits group = true := by
  induction rest generalizing current groups with
  | nil =>
    rw [← Except.ok.inj hGroups]
    split_ifs with hEmpty
    · rw [List.isEmpty_iff.mp hEmpty]
      exact ⟨rfl, nofun⟩
    · have hSome : current ≠ [] := by simpa using hEmpty
      exact ⟨by simp, by simpa using ⟨hSome, hCurrent hSome⟩⟩
  | cons item rest ih =>
    unfold groupItems at hGroups
    split_ifs at hGroups with hFits hEmpty hOne
    · rcases ih (fun _ => hFits) hGroups with ⟨hFlat, hEach⟩
      exact ⟨hFlat.trans (List.append_assoc _ _ _), hEach⟩
    · have hSome : current ≠ [] := by simpa using hEmpty
      cases hRest : groupItems fits err [item] rest with
      | error err => simp [hRest, Except.map] at hGroups
      | ok groups' =>
        rcases ih (fun _ => by simpa using hOne) hRest with ⟨hFlat, hEach⟩
        rw [hRest] at hGroups
        rw [← Except.ok.inj hGroups, List.flatten_cons, hFlat, List.forall_mem_cons]
        exact ⟨rfl, ⟨hSome, hCurrent hSome⟩, hEach⟩

variable {sha : Digest} {metadata : Metadata} {maxBytes : Int}

theorem ne_nil_of_mem_partitionItemGroups {sorted : List Item}
    (hGroups : partitionItemGroups sha sorted metadata maxBytes = .ok groups)
    (hMany : 1 < groups.length) : ∀ group ∈ groups, group ≠ [] := by
  unfold partitionItemGroups at hGroups
  split_ifs at hGroups
  · rw [← Except.ok.inj hGroups] at hMany
    exact absurd hMany (Nat.lt_irrefl 1)
  · rw [← Except.ok.inj hGroups] at hMany
    exact absurd hMany (Nat.lt_irrefl 1)
  · exact fun group hMem => ((groupItems_spec (absurd rfl) hGroups).2 group hMem).1

theorem flatten_partitionItemGroups {sorted : List Item}
    (hGroups : partitionItemGroups sha sorted metadata maxBytes = .ok groups) :
    groups.flatten = sorted := by
  unfold partitionItemGroups at hGroups
  split_ifs at hGroups with hFits hEmpty
  · rw [← Except.ok.inj hGroups, List.flatten_singleton]
  · rw [← Except.ok.inj hGroups, List.isEmpty_iff.mp hEmpty]
    rfl
  · exact (groupItems_spec (absurd rfl) hGroups).1

variable {parts : List EnvelopePartition}

/- The parts are made from the pieces of the sorted items. -/
theorem exists_groups {items : List Item}
    (hParts : partitionEnvelopes sha items metadata maxBytes = .ok parts) :
    ∃ groups, partitionItemGroups sha (stableItems items) metadata maxBytes = .ok groups ∧
        parts = groups.mapIdx fun i group => partOf sha metadata (i + 1) groups.length group := by
  unfold partitionEnvelopes at hParts
  cases hGroups : partitionItemGroups sha (stableItems items) metadata maxBytes with
  | error err => simp [hGroups, Except.map] at hParts
  | ok groups =>
    rw [hGroups] at hParts
    exact ⟨groups, rfl, (Except.ok.inj hParts).symm⟩

/- The parts are numbered, and each is made from its group. -/
theorem getElem?_partitionEnvelopes {items : List Item}
    (hParts : partitionEnvelopes sha items metadata maxBytes = .ok parts) {k : Nat}
    (hK : k < parts.length) :
    ∃ group, parts[k]? = some (partOf sha metadata (k + 1) parts.length group) ∧
      (1 < parts.length → group ≠ []) := by
  rcases exists_groups hParts with ⟨groups, hGroups, hEq⟩
  have hLength : groups.length = parts.length := by rw [hEq, List.length_mapIdx]
  rw [← hLength] at hK ⊢
  refine ⟨groups[k], ?_, ?_⟩
  · rw [hEq, List.getElem?_mapIdx, List.getElem?_eq_getElem hK]
    rfl
  · intro hMany
    exact ne_nil_of_mem_partitionItemGroups hGroups hMany _ (List.getElem_mem hK)

end Export
end Kollect
