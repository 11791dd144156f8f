import Kollect.Sink.CleanupCoverage
import Kollect.Sink.LayoutExport

/-
  A set on disk and its manifest (`sink/layout/manifest.go`).

  A consumer lists the managed directory and compares it with the paths a manifest declares.
  Manifests are told from data by the end of their names.

  Key theorems include:
    * `verifySet_iff`
-/

namespace Kollect
namespace Sink

open Collect Export

def isControlSidecar (p : Text) : Bool := (".manifest.json" : Text).isSuffixOf p

structure SetVerification where
  complete : Bool
  missing : List Text
  stale : List Text
  generationMismatch : Bool

def verifySet (m : SetManifest) (present : List Text) (expectedGeneration : Int) :
    SetVerification :=
  let missing := Text.sort (m.paths.filter fun p => p ∉ present)
  let stale := Text.sort (present.filter fun p => p ∉ m.paths ∧ isControlSidecar p = false)
  let genMismatch := decide (expectedGeneration ≠ 0 ∧ m.generation ≠ expectedGeneration)
  { complete := missing.isEmpty && stale.isEmpty && !genMismatch
    missing := missing
    stale := stale
    generationMismatch := genMismatch }

----
-- Listings
----

/- The names of a row's resource and of its target. -/
structure ValidNames (item : Item) : Prop where
  target : isDnsLabel item.targetNamespace = true ∧ isDnsSubdomain item.targetName = true
  namespace_ : item.namespace_ = [] ∨ isDnsLabel item.namespace_ = true
  name : isDnsSubdomain item.name = true

def DataFile (p : Text) : Prop := ∃ item r, ValidNames item ∧ renderItemPath item r = .ok p

/- A listing of data files and of the manifests of sets. -/
structure SetListing (data present : List Text) : Prop where
  nodup : present.Nodup
  listed : ∀ p ∈ data, p ∈ present ∧ DataFile p
  manifests : ∀ p ∈ present, p ∉ data → ∃ r : ResolvedLayout, p = r.setManifestPath

/- What a consumer is told about a set. -/
structure Verified (m : SetManifest) (data present : List Text) (expected : Int)
    (v : SetVerification) : Prop where
  complete : v.complete = true ↔
    (∀ p, p ∈ m.paths ↔ p ∈ data) ∧ (expected = 0 ∨ expected = m.generation)
  missing : v.missing.Pairwise (· ≤ ·) ∧ ∀ p, p ∈ v.missing ↔ p ∈ m.paths ∧ p ∉ present
  stale : v.stale.Pairwise (· ≤ ·) ∧ ∀ p, p ∈ v.stale ↔ p ∈ data ∧ p ∉ m.paths

/- The set is not whole: another generation, a declared file that is not there, or one too many. -/
def Torn (m : SetManifest) (data present : List Text) (expected : Int) : Prop :=
  (expected ≠ 0 ∧ expected ≠ m.generation) ∨ (∃ p ∈ m.paths, p ∉ present) ∨ ∃ p ∈ data, p ∉ m.paths

/-
  Data that is named like a manifest is declared, and a manifest at the path of declared data stands
  in sets only that are torn anyway.
-/
structure ToldApart (m : SetManifest) (data present : List Text) (expected : Int) : Prop where
  named : ∀ p ∈ data, (".manifest.json" : Text) <:+ p → p ∈ m.paths
  declared : ∀ p ∈ m.paths, p ∈ present → p ∉ data → Torn m data present expected

theorem isControlSidecar_iff {p : Text} :
    isControlSidecar p = true ↔ (".manifest.json" : Text) <:+ p := List.isSuffixOf_iff_suffix

theorem isControlSidecar_setManifestPath (r : ResolvedLayout) :
    isControlSidecar r.setManifestPath = true := by
  rw [r.setManifestPath_eq, isControlSidecar, List.isSuffixOf_iff_suffix]
  exact ⟨("inventory/" : Text) ++ r.inventoryNamespace ++ '/' :: r.inventoryName, by simp⟩

variable {m : SetManifest} {present : List Text} {expected : Int}

theorem mem_missing {p : Text} :
    p ∈ (verifySet m present expected).missing ↔ p ∈ m.paths ∧ p ∉ present := by
  simp [verifySet, Text.mem_sort]

theorem mem_stale {p : Text} : p ∈ (verifySet m present expected).stale ↔
      p ∈ present ∧ p ∉ m.paths ∧ isControlSidecar p = false := by
  simp [verifySet, Text.mem_sort]

theorem complete_iff :
    (verifySet m present expected).complete = true ↔ (∀ p ∈ m.paths, p ∈ present) ∧
        (∀ p ∈ present, p ∉ m.paths → isControlSidecar p = true) ∧
        (expected = 0 ∨ expected = m.generation) := by
  have hMissing : (verifySet m present expected).missing = [] ↔ ∀ p ∈ m.paths, p ∈ present := by
    simp [List.eq_nil_iff_forall_not_mem, mem_missing]
  have hStale : (verifySet m present expected).stale = [] ↔
      ∀ p ∈ present, p ∉ m.paths → isControlSidecar p = true := by
    simp [List.eq_nil_iff_forall_not_mem, mem_stale]
  rw [← hMissing, ← hStale, @eq_comm _ expected m.generation]
  simp [verifySet, and_assoc, or_iff_not_imp_left]

/- A set is judged by its data files as long as these are told apart from the manifests. -/
theorem verifySet_iff (r : ResolvedLayout) (partTotal : Nat) (paths : List Text)
    {data present : List Text} (hListing : SetListing data present) (expected : Int) :
    Verified (buildSetManifest r partTotal paths) data present expected
        (verifySet (buildSetManifest r partTotal paths) present expected) ↔
      ToldApart (buildSetManifest r partTotal paths) data present expected := by
  generalize buildSetManifest r partTotal paths = m
  constructor
  · intro hVerified
    refine ⟨fun p hP hNamed => ?_, fun p hP hListed hOther => ?_⟩
    · by_contra hNew
      have hStale := (hVerified.stale.2 p).mpr ⟨hP, hNew⟩
      exact absurd (isControlSidecar_iff.mpr hNamed) (by simp [(mem_stale.mp hStale).2.2])
    · by_contra hWhole
      simp only [Torn, not_or, not_and_or, not_exists, not_not] at hWhole
      have hComplete : (verifySet m present expected).complete = true := by
        refine complete_iff.mpr ⟨fun q hQ => ?_, fun q hQ hNew => ?_, hWhole.1⟩
        · exact (hWhole.2.1 q).resolve_left (not_not.mpr hQ)
        · rcases hListing.manifests q hQ fun hData =>
            hNew ((hWhole.2.2 q).resolve_left (not_not.mpr hData)) with ⟨layout, rfl⟩
          exact isControlSidecar_setManifestPath layout
      exact hOther (((hVerified.complete.mp hComplete).1 p).mp hP)
  · intro hApart
    have hStale : ∀ p, p ∈ (verifySet m present expected).stale ↔ p ∈ data ∧ p ∉ m.paths := by
      intro p
      rw [mem_stale]
      constructor
      · rintro ⟨hP, hNew, hOther⟩
        refine ⟨?_, hNew⟩
        by_contra hManifest
        rcases hListing.manifests p hP hManifest with ⟨layout, rfl⟩
        rw [isControlSidecar_setManifestPath] at hOther
        cases hOther
      · rintro ⟨hP, hNew⟩
        refine ⟨(hListing.listed p hP).1, hNew, ?_⟩
        exact Bool.eq_false_iff.mpr fun hSidecar =>
          hNew (hApart.named p hP (isControlSidecar_iff.mp hSidecar))
    refine ⟨⟨fun hComplete => ?_, ?_⟩, ⟨List.pairwise_insertionSort _ _, fun p => mem_missing⟩,
      List.pairwise_insertionSort _ _, hStale⟩
    · have hNames := complete_iff.mp hComplete
      have hData : ∀ p ∈ data, p ∈ m.paths := by
        intro p hP
        by_contra hNew
        have hSidecar := hNames.2.1 p (hListing.listed p hP).1 hNew
        exact hNew (hApart.named p hP (isControlSidecar_iff.mp hSidecar))
      refine ⟨fun p => ⟨fun hP => ?_, hData p⟩, hNames.2.2⟩
      by_contra hOther
      rcases hApart.declared p hP (hNames.1 p hP) hOther with hOld | ⟨q, hQ, hGone⟩ | ⟨q, hQ, hNew⟩
      · exact hNames.2.2.elim hOld.1 hOld.2
      · exact hGone (hNames.1 q hQ)
      · exact hNew (hData q hQ)
    · rintro ⟨hSame, hGeneration⟩
      refine complete_iff.mpr ⟨fun p hP => (hListing.listed p ((hSame p).mp hP)).1, ?_, hGeneration⟩
      intro p hP hNew
      rcases hListing.manifests p hP fun hData => hNew ((hSame p).mpr hData) with ⟨layout, rfl⟩
      exact isControlSidecar_setManifestPath layout

----
-- A Resource Named Like A Manifest
----

/- Resources are files of their own names. -/
def jsonLayout : ResolvedLayout :=
  resolve { treeSpec "{sourceName}{extension}" with serialization := some .json }
    "a" "web" 1 ⟨false, []⟩

theorem dataFile_of_name {name p : Text} (hName : isDnsSubdomain name = true)
    (hPath : renderItemPath { targetRow "t" with name := name } jsonLayout = .ok p) :
    DataFile p := by
  have hLabel : isDnsLabel "a".toList = true := by decide
  have hTarget : isDnsSubdomain "t".toList = true := by decide
  exact ⟨_, _, ⟨⟨hLabel, hTarget⟩, .inr hLabel, hName⟩, hPath⟩

/- The manifest of the set is no part of its data. -/
theorem listed_manifest_is_no_data : Verified (buildSetManifest jsonLayout 1 ["web.json".toList])
      ["web.json".toList] ["web.json".toList, jsonLayout.setManifestPath] 1
      (verifySet (buildSetManifest jsonLayout 1 ["web.json".toList])
        ["web.json".toList, jsonLayout.setManifestPath] 1) := by
  have hData : DataFile "web.json".toList :=
    @dataFile_of_name "web" _ (by decide) (by decide +kernel)
  refine (verifySet_iff _ _ _ ⟨by decide +kernel, ?_, ?_⟩ 1).mpr ⟨by decide +kernel, ?_⟩
  · exact List.forall_mem_singleton.mpr ⟨List.mem_cons_self, hData⟩
  · intro p hP hOther
    rcases List.mem_cons.mp hP with rfl | hP
    · exact absurd List.mem_cons_self hOther
    · exact ⟨jsonLayout, List.mem_singleton.mp hP⟩
  · exact fun p hP _ hOther => absurd (Text.mem_sort.mp hP) hOther

/- The file of another resource is left over, and the set is complete. -/
theorem named_manifest_is_overlooked :
    DataFile "web.manifest.json" ∧ (verifySet (buildSetManifest jsonLayout 1 ["web.json".toList])
        ["web.json".toList, "web.manifest.json".toList] 1).complete = true :=
  ⟨@dataFile_of_name "web.manifest" _ (by decide) (by decide +kernel), by decide +kernel⟩

end Sink
end Kollect
