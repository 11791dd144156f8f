import Mathlib.Data.Multiset.AddSub
import Mathlib.Data.Multiset.Count
import Mathlib.Logic.Function.Basic
import Mathlib.Logic.Relation

/-
  Resources that are shared by holders and closed once.

  A slot offers a resource to holders. A resource that is retired leaves its slot and is closed when
  its last holder releases it, or at once without holders. A resource may also belong to one holder
  alone, or to nobody.

  `Custody.Move` is what may happen to the accounts. In every state that moves lead to, a resource
  is closed at most once, never while it is held, and exactly once after its end.

  Key theorems include:
    * `Custody.Sound.moves`
    * `Custody.Sound.closedOnce`
-/

namespace Custody

----
-- Accounts
----

structure Cell where
  holders : Nat
  retired : Bool

/- The right to a resource that somebody has received. -/
structure Release where
  resource : Nat
  owning : Bool
  done : Bool
deriving DecidableEq, Repr

/- Resources are numbered in the order they are made. A close is decided first and done later. -/
@[ext] structure Accounts (K : Type) where
  slots : K → Option Nat
  cells : Nat → Option Cell
  releases : List Release
  made : Nat
  closing : Multiset Nat
  closed : Multiset Nat

def Release.isOpen (r : Nat) (rel : Release) : Bool := rel.resource == r && !rel.done

/- A close that is due. -/
def dueClose (due : Bool) (r : Nat) : Multiset Nat := if due then {r} else 0

namespace Accounts

variable {K : Type} (s : Accounts K)

/- How many have the resource and did not release it. -/
def openOf (r : Nat) : Nat := s.releases.countP (Release.isOpen r)

/- How often the resource is closed or about to be. -/
def closes (r : Nat) : Nat := s.closing.count r + s.closed.count r

def IsOut (r : Nat) : Prop := ∀ k, s.slots k ≠ some r

/- The resource leaves its slot. -/
def retire [DecidableEq K] (k : K) (r : Nat) (c : Cell) : Accounts K :=
  { s with
    slots := Function.update s.slots k none
    cells := Function.update s.cells r (some { c with retired := true })
    closing := dueClose (c.holders == 0) r + s.closing }

def hold (r : Nat) (c : Cell) : Accounts K :=
  { s with
    cells := Function.update s.cells r (some { c with holders := c.holders + 1 })
    releases := s.releases ++ [⟨r, false, false⟩] }

def publish [DecidableEq K] (k : K) : Accounts K :=
  { s with
    slots := Function.update s.slots k (some s.made)
    cells := Function.update s.cells s.made (some ⟨1, false⟩)
    releases := s.releases ++ [⟨s.made, false, false⟩]
    made := s.made + 1 }

def own : Accounts K :=
  { s with
    releases := s.releases ++ [⟨s.made, true, false⟩]
    made := s.made + 1 }

def discard : Accounts K :=
  { s with
    made := s.made + 1
    closing := dueClose true s.made + s.closing }

/- A holder is done; the last one of a retired resource closes. -/
def releaseHold (r : Nat) (c : Cell) (before after : List Release) : Accounts K :=
  { s with
    cells := Function.update s.cells r (some { c with holders := c.holders - 1 })
    releases := before ++ ⟨r, false, true⟩ :: after
    closing := dueClose (c.retired && c.holders - 1 == 0) r + s.closing }

def releaseOwned (r : Nat) (before after : List Release) : Accounts K :=
  { s with
    releases := before ++ ⟨r, true, true⟩ :: after
    closing := dueClose true r + s.closing }

/- A close that was decided is done. -/
def close (r : Nat) : Accounts K :=
  { s with
    closing := s.closing.erase r
    closed := {r} + s.closed }

end Accounts

----
-- Moves
----

variable {K : Type}

inductive Move [DecidableEq K] (s : Accounts K) : Accounts K → Prop
  | retire {k : K} {r : Nat} {c : Cell} (hSlot : s.slots k = some r)
      (hCell : s.cells r = some c) : Move s (s.retire k r c)
  | hold {k : K} {r : Nat} {c : Cell} (hSlot : s.slots k = some r)
      (hCell : s.cells r = some c) : Move s (s.hold r c)
  | publish {k : K} (hFree : s.slots k = none) : Move s (s.publish k)
  | own : Move s s.own
  | discard : Move s s.discard
  | releaseHold {r : Nat} {c : Cell} {before after : List Release}
      (hRelease : s.releases = before ++ ⟨r, false, false⟩ :: after)
      (hCell : s.cells r = some c) : Move s (s.releaseHold r c before after)
  | releaseOwned {r : Nat} {before after : List Release}
      (hRelease : s.releases = before ++ ⟨r, true, false⟩ :: after) :
      Move s (s.releaseOwned r before after)
  | close {r : Nat} (hClosing : r ∈ s.closing) : Move s (s.close r)

----
-- Sound Accounts
----

/-
  The holders of a shared resource are counted, and it is closed after its end; another one is
  closed by its owner or had none.
-/
def Balanced : Option Cell → Nat → Nat → Prop
  | some c, opened, closes => c.holders = opened ∧ closes = (c.retired && c.holders == 0).toNat
  | none, opened, closes => closes + opened = 1

/- The slots offer what is shared and not retired, once. -/
structure Offers (s : Accounts K) : Prop where
  live : ∀ k r, s.slots k = some r → ∃ c, s.cells r = some c ∧ c.retired = false
  once : ∀ k k' r, s.slots k = some r → s.slots k' = some r → k = k'
  kept : ∀ r c, s.cells r = some c → c.retired = false → ∃ k, s.slots k = some r

structure Sound (s : Accounts K) : Prop where
  offers : Offers s
  kind : ∀ rel ∈ s.releases, rel.owning = (s.cells rel.resource).isNone
  unmade : ∀ r, s.made ≤ r → s.cells r = none ∧
    s.closes r = 0 ∧ ∀ rel ∈ s.releases, rel.resource ≠ r
  balanced : ∀ r, r < s.made → Balanced (s.cells r) (s.openOf r) (s.closes r)

section Counting

theorem count_dueClose (due : Bool) (r r' : Nat) :
    (dueClose due r).count r' = (due && r' == r).toNat := by
  unfold dueClose
  cases due with
  | false => simp
  | true =>
    by_cases hR : r' = r
    · simp [hR]
    · rw [if_pos rfl, Multiset.count_singleton, if_neg hR, beq_false_of_ne hR]
      rfl

theorem countP_concat (releases : List Release) (r r' : Nat) (owning : Bool) :
    (releases ++ [Release.mk r owning false]).countP (Release.isOpen r') =
      releases.countP (Release.isOpen r') + (r == r').toNat := by
  rw [List.countP_append, List.countP_singleton]
  by_cases hR : r = r'
  · simp [Release.isOpen, hR]
  · simp [Release.isOpen, hR]

/- The release that is done was open. -/
theorem countP_done (before after : List Release) (r r' : Nat) (owning : Bool) :
    (before ++ Release.mk r owning false :: after).countP (Release.isOpen r') =
      (before ++ Release.mk r owning true :: after).countP
          (Release.isOpen r') + (r == r').toNat := by
  rw [List.countP_append, List.countP_append, List.countP_cons, List.countP_cons]
  by_cases hR : r = r'
  · simp [Release.isOpen, hR, Nat.add_assoc]
  · simp [Release.isOpen, hR]

end Counting

theorem Offers.congr {s s' : Accounts K} (h : Offers s) (hSlots : s'.slots = s.slots)
    (hCells : ∀ r, (s'.cells r).map Cell.retired = (s.cells r).map Cell.retired) : Offers s' := by
  constructor
  · intro k r hSlot
    rw [hSlots] at hSlot
    rcases h.live k r hSlot with ⟨c, hCell, hLive⟩
    have hSame := hCells r
    rw [hCell, Option.map_some, hLive] at hSame
    exact Option.map_eq_some_iff.mp hSame
  · rw [hSlots]
    exact h.once
  · intro r c hCell hLive
    have hSame := hCells r
    rw [hCell, Option.map_some, hLive] at hSame
    rcases Option.map_eq_some_iff.mp hSame.symm with ⟨c', hCell', hLive'⟩
    rw [hSlots]
    exact h.kept r c' hCell' hLive'

theorem Offers.live_cell {s : Accounts K} (h : Offers s) {k : K} {r : Nat} {c : Cell}
    (hSlot : s.slots k = some r) (hCell : s.cells r = some c) : c.retired = false := by
  rcases h.live k r hSlot with ⟨c', hCell', hLive⟩
  rw [hCell] at hCell'
  rw [Option.some.inj hCell']
  exact hLive

theorem retired_update {cells : Nat → Option Cell} {r : Nat} {c c' : Cell}
    (hCell : cells r = some c) (hSame : c'.retired = c.retired) (r' : Nat) :
    (Function.update cells r (some c') r').map Cell.retired = (cells r').map Cell.retired := by
  by_cases hR : r' = r
  · rw [hR, Function.update_self, hCell, Option.map_some, hSame]
    rfl
  · rw [Function.update_of_ne hR]

namespace Sound

variable {s s' : Accounts K}

variable {r : Nat} {c : Cell}

theorem lt_made (h : Sound s) (hCell : s.cells r = some c) : r < s.made := by
  by_contra hNot
  rw [(h.unmade r (Nat.le_of_not_lt hNot)).1] at hCell
  cases hCell

theorem openOf_unmade (h : Sound s) (hR : s.made ≤ r) : s.openOf r = 0 := by
  unfold Accounts.openOf
  rw [List.countP_eq_zero]
  intro rel hRel
  have hNe := (h.unmade r hR).2.2 rel hRel
  simp [Release.isOpen, hNe]

theorem balanced_some (h : Sound s) (hCell : s.cells r = some c) :
    c.holders = s.openOf r ∧ s.closes r = (c.retired && c.holders == 0).toNat := by
  have hBalanced := h.balanced r (h.lt_made hCell)
  rw [hCell] at hBalanced
  exact hBalanced

variable {k : K}

theorem retire [DecidableEq K] (h : Sound s) (hSlot : s.slots k = some r)
    (hCell : s.cells r = some c) : Sound (s.retire k r c) := by
  have hLive := h.offers.live_cell hSlot hCell
  have hCloses : ∀ r', (s.retire k r c).closes r' =
      s.closes r' + (c.holders == 0 && r' == r).toNat := by
    intro r'
    unfold Accounts.closes Accounts.retire
    dsimp only
    rw [Multiset.count_add, count_dueClose]
    omega
  have hOld : ∀ {k' r'}, (s.retire k r c).slots k' = some r' → s.slots k' = some r' ∧ r' ≠ r := by
    intro k' r' hSlot'
    unfold Accounts.retire at hSlot'
    dsimp only at hSlot'
    rw [Function.update_apply] at hSlot'
    split_ifs at hSlot' with hK
    refine ⟨hSlot', ?_⟩
    intro hR
    rw [hR] at hSlot'
    exact hK (h.offers.once k' k r hSlot' hSlot)
  have hCells : ∀ {r'}, r' ≠ r → (s.retire k r c).cells r' = s.cells r' :=
    fun hR => Function.update_of_ne hR _ _
  have hSelf : (s.retire k r c).cells r = some { c with retired := true } :=
    Function.update_self _ _ _
  refine ⟨⟨?_, ?_, ?_⟩, ?_, ?_, ?_⟩
  · intro k' r' hSlot'
    rcases hOld hSlot' with ⟨hBefore, hR⟩
    rw [hCells hR]
    exact h.offers.live k' r' hBefore
  · intro k₁ k₂ r' hSlot₁ hSlot₂
    exact h.offers.once k₁ k₂ r' (hOld hSlot₁).1 (hOld hSlot₂).1
  · intro r' c' hCell' hLive'
    by_cases hR : r' = r
    · rw [hR, hSelf] at hCell'
      rw [← Option.some.inj hCell'] at hLive'
      cases hLive'
    · rw [hCells hR] at hCell'
      rcases h.offers.kept r' c' hCell' hLive' with ⟨k', hSlot'⟩
      have hK : k' ≠ k := by
        intro hEq
        rw [hEq, hSlot] at hSlot'
        exact hR (Option.some.inj hSlot').symm
      exact ⟨k', (Function.update_of_ne hK _ _).trans hSlot'⟩
  · intro rel hRel
    rw [h.kind rel hRel]
    by_cases hR : rel.resource = r
    · rw [hR, hSelf, hCell]
      rfl
    · rw [hCells hR]
  · intro r' hR'
    have hNe : r' ≠ r := Nat.ne_of_gt (Nat.lt_of_lt_of_le (h.lt_made hCell) hR')
    rcases h.unmade r' hR' with ⟨hNone, hZero, hFree⟩
    rw [hCells hNe, hCloses, hZero, beq_false_of_ne hNe, Bool.and_false]
    exact ⟨hNone, rfl, hFree⟩
  · intro r' hR'
    rw [hCloses]
    by_cases hR : r' = r
    · rcases h.balanced_some hCell with ⟨hHolders, hZero⟩
      rw [hR, hSelf, hZero, hLive]
      exact ⟨hHolders, by simp⟩
    · rw [hCells hR, beq_false_of_ne hR, Bool.and_false]
      exact h.balanced r' hR'

theorem kind_of_cells (h : Sound s)
    (hCells : ∀ r, (s'.cells r).map Cell.retired = (s.cells r).map Cell.retired)
    {rel : Release} (hRel : rel ∈ s.releases) : rel.owning = (s'.cells rel.resource).isNone := by
  have hSame := congrArg Option.isNone (hCells rel.resource)
  rw [Option.isNone_map, Option.isNone_map] at hSame
  rw [h.kind rel hRel, hSame]

theorem hold (h : Sound s) (hSlot : s.slots k = some r) (hCell : s.cells r = some c) :
    Sound (s.hold r c) := by
  have hLive := h.offers.live_cell hSlot hCell
  have hOpen : ∀ r', (s.hold r c).openOf r' = s.openOf r' + (r == r').toNat := fun r' =>
    countP_concat s.releases r r' false
  have hCells : ∀ {r'}, r' ≠ r → (s.hold r c).cells r' = s.cells r' :=
    fun hR => Function.update_of_ne hR _ _
  have hSelf : (s.hold r c).cells r = some { c with holders := c.holders + 1 } :=
    Function.update_self _ _ _
  have hRetired : ∀ r', ((s.hold r c).cells r').map Cell.retired = (s.cells r').map Cell.retired :=
    retired_update hCell rfl
  refine ⟨h.offers.congr rfl hRetired, ?_, ?_, ?_⟩
  · intro rel hRel
    rcases List.mem_append.mp hRel with hOld | hNew
    · exact h.kind_of_cells hRetired hOld
    · rw [List.mem_singleton.mp hNew, hSelf]
      rfl
  · intro r' hR'
    have hNe : r' ≠ r := Nat.ne_of_gt (Nat.lt_of_lt_of_le (h.lt_made hCell) hR')
    rcases h.unmade r' hR' with ⟨hNone, hZero, hFree⟩
    rw [hCells hNe]
    refine ⟨hNone, hZero, ?_⟩
    intro rel hRel
    rcases List.mem_append.mp hRel with hOld | hNew
    · exact hFree rel hOld
    · rw [List.mem_singleton.mp hNew]
      exact hNe.symm
  · intro r' hR'
    rw [hOpen]
    by_cases hR : r' = r
    · rcases h.balanced_some hCell with ⟨hHolders, hZero⟩
      rw [hLive, Bool.false_and] at hZero
      rw [hR, hSelf]
      refine ⟨by simp [hHolders], ?_⟩
      rw [hLive, Bool.false_and]
      exact hZero
    · rw [hCells hR, beq_false_of_ne (Ne.symm hR)]
      exact h.balanced r' hR'

theorem publish [DecidableEq K] (h : Sound s) (hFree : s.slots k = none) : Sound (s.publish k) := by
  have hOpen : ∀ r', (s.publish k).openOf r' = s.openOf r' + (s.made == r').toNat := fun r' =>
    countP_concat s.releases s.made r' false
  have hCells : ∀ {r'}, r' ≠ s.made → (s.publish k).cells r' = s.cells r' :=
    fun hR => Function.update_of_ne hR _ _
  have hSelf : (s.publish k).cells s.made = some ⟨1, false⟩ := Function.update_self _ _ _
  have hSlots : ∀ {k'}, k' ≠ k → (s.publish k).slots k' = s.slots k' :=
    fun hK => Function.update_of_ne hK _ _
  have hSlot : (s.publish k).slots k = some s.made := Function.update_self _ _ _
  have hOld : ∀ {k' r'}, s.slots k' = some r' → r' ≠ s.made := by
    intro k' r' hSlot'
    rcases h.offers.live k' r' hSlot' with ⟨c, hCell, -⟩
    exact Nat.ne_of_lt (h.lt_made hCell)
  refine ⟨⟨?_, ?_, ?_⟩, ?_, ?_, ?_⟩
  · intro k' r' hSlot'
    by_cases hK : k' = k
    · rw [hK, hSlot] at hSlot'
      rw [← Option.some.inj hSlot']
      exact ⟨_, hSelf, rfl⟩
    · rw [hSlots hK] at hSlot'
      rw [hCells (hOld hSlot')]
      exact h.offers.live k' r' hSlot'
  · intro k₁ k₂ r' hSlot₁ hSlot₂
    by_cases hK₁ : k₁ = k
    · by_cases hK₂ : k₂ = k
      · rw [hK₁, hK₂]
      · rw [hK₁, hSlot] at hSlot₁
        rw [hSlots hK₂] at hSlot₂
        exact absurd (Option.some.inj hSlot₁).symm (hOld hSlot₂)
    · rw [hSlots hK₁] at hSlot₁
      by_cases hK₂ : k₂ = k
      · rw [hK₂, hSlot] at hSlot₂
        exact absurd (Option.some.inj hSlot₂).symm (hOld hSlot₁)
      · rw [hSlots hK₂] at hSlot₂
        exact h.offers.once k₁ k₂ r' hSlot₁ hSlot₂
  · intro r' c' hCell' hLive'
    by_cases hR : r' = s.made
    · rw [hR]
      exact ⟨k, hSlot⟩
    · rw [hCells hR] at hCell'
      rcases h.offers.kept r' c' hCell' hLive' with ⟨k', hSlot'⟩
      have hK : k' ≠ k := by
        intro hEq
        rw [hEq, hFree] at hSlot'
        cases hSlot'
      exact ⟨k', (hSlots hK).trans hSlot'⟩
  · intro rel hRel
    rcases List.mem_append.mp hRel with hBefore | hNew
    · have hNe := (h.unmade s.made le_rfl).2.2 rel hBefore
      rw [hCells hNe]
      exact h.kind rel hBefore
    · rw [List.mem_singleton.mp hNew, hSelf]
      rfl
  · intro r' hR'
    have hLt : s.made < r' := hR'
    rcases h.unmade r' hLt.le with ⟨hNone, hZero, hNoRelease⟩
    rw [hCells (Nat.ne_of_gt hLt)]
    refine ⟨hNone, hZero, ?_⟩
    intro rel hRel
    rcases List.mem_append.mp hRel with hBefore | hNew
    · exact hNoRelease rel hBefore
    · rw [List.mem_singleton.mp hNew]
      exact Nat.ne_of_lt hLt
  · intro r' hR'
    rw [hOpen]
    by_cases hR : r' = s.made
    · rw [hR, hSelf, h.openOf_unmade le_rfl]
      exact ⟨by simp, (h.unmade s.made le_rfl).2.1⟩
    · rw [hCells hR, beq_false_of_ne (Ne.symm hR)]
      exact h.balanced r' (Nat.lt_of_le_of_ne (Nat.le_of_lt_succ hR') hR)

theorem own (h : Sound s) : Sound s.own := by
  have hOpen : ∀ r', s.own.openOf r' = s.openOf r' + (s.made == r').toNat := fun r' =>
    countP_concat s.releases s.made r' true
  rcases h.unmade s.made le_rfl with ⟨hCell, hZero, hFree⟩
  refine ⟨h.offers.congr rfl fun _ => rfl, ?_, ?_, ?_⟩
  · intro rel hRel
    rcases List.mem_append.mp hRel with hBefore | hNew
    · exact h.kind rel hBefore
    · rw [List.mem_singleton.mp hNew]
      exact (congrArg Option.isNone hCell).symm
  · intro r' hR'
    have hLt : s.made < r' := hR'
    rcases h.unmade r' hLt.le with ⟨hNone, hZero', hFree'⟩
    refine ⟨hNone, hZero', ?_⟩
    intro rel hRel
    rcases List.mem_append.mp hRel with hBefore | hNew
    · exact hFree' rel hBefore
    · rw [List.mem_singleton.mp hNew]
      exact Nat.ne_of_lt hLt
  · intro r' hR'
    rw [hOpen]
    by_cases hR : r' = s.made
    · have hNone : s.own.cells s.made = none := hCell
      have hCloses : s.own.closes s.made = 0 := hZero
      rw [hR, hNone, hCloses, h.openOf_unmade le_rfl]
      simp [Balanced]
    · rw [beq_false_of_ne (Ne.symm hR)]
      exact h.balanced r' (Nat.lt_of_le_of_ne (Nat.le_of_lt_succ hR') hR)

theorem discard (h : Sound s) : Sound s.discard := by
  have hCloses : ∀ r', s.discard.closes r' = s.closes r' + (r' == s.made).toNat := by
    intro r'
    unfold Accounts.closes Accounts.discard
    dsimp only
    rw [Multiset.count_add, count_dueClose, Bool.true_and]
    omega
  rcases h.unmade s.made le_rfl with ⟨hCell, hZero, -⟩
  refine ⟨h.offers.congr rfl fun _ => rfl, h.kind, ?_, ?_⟩
  · intro r' hR'
    have hLt : s.made < r' := hR'
    rcases h.unmade r' hLt.le with ⟨hNone, hZero', hFree'⟩
    rw [hCloses, hZero', beq_false_of_ne (Nat.ne_of_gt hLt)]
    exact ⟨hNone, rfl, hFree'⟩
  · intro r' hR'
    rw [hCloses]
    by_cases hR : r' = s.made
    · have hNone : s.discard.cells s.made = none := hCell
      have hOpen : s.discard.openOf s.made = 0 := h.openOf_unmade le_rfl
      rw [hR, hNone, hOpen, hZero]
      simp [Balanced]
    · rw [beq_false_of_ne hR]
      exact h.balanced r' (Nat.lt_of_le_of_ne (Nat.le_of_lt_succ hR') hR)

variable {before after : List Release}

theorem mem_done {owning : Bool} (hRelease : s.releases = before ++ ⟨r, owning, false⟩ :: after)
    {rel : Release} (hRel : rel ∈ before ++ ⟨r, owning, true⟩ :: after) :
    ∃ old ∈ s.releases, old.resource = rel.resource ∧ old.owning = rel.owning := by
  rw [hRelease]
  rcases List.mem_append.mp hRel with hBefore | hRest
  · exact ⟨rel, List.mem_append_left _ hBefore, rfl, rfl⟩
  · rcases List.mem_cons.mp hRest with hSelf | hAfter
    · rw [hSelf]
      exact ⟨_, List.mem_append_right _ List.mem_cons_self, rfl, rfl⟩
    · exact ⟨rel, List.mem_append_right _ (List.mem_cons_of_mem _ hAfter), rfl, rfl⟩

theorem releaseHold (h : Sound s) (hRelease : s.releases = before ++ ⟨r, false, false⟩ :: after)
    (hCell : s.cells r = some c) : Sound (s.releaseHold r c before after) := by
  have hOpen : ∀ r', s.openOf r' =
      (s.releaseHold r c before after).openOf r' + (r == r').toNat := by
    intro r'
    unfold Accounts.openOf
    rw [hRelease]
    exact countP_done before after r r' false
  have hCloses : ∀ r',
      (s.releaseHold r c before after).closes r' =
        s.closes r' + ((c.retired && c.holders - 1 == 0) && r' == r).toNat := by
    intro r'
    unfold Accounts.closes Accounts.releaseHold
    dsimp only
    rw [Multiset.count_add, count_dueClose]
    omega
  have hCells : ∀ {r'}, r' ≠ r → (s.releaseHold r c before after).cells r' = s.cells r' :=
    fun hR => Function.update_of_ne hR _ _
  have hSelf : (s.releaseHold r c before after).cells r =
      some { c with holders := c.holders - 1 } :=
    Function.update_self _ _ _
  have hRetired : ∀ r', ((s.releaseHold r c before after).cells r').map
        Cell.retired = (s.cells r').map Cell.retired :=
    retired_update hCell rfl
  refine ⟨h.offers.congr rfl hRetired, ?_, ?_, ?_⟩
  · intro rel hRel
    rcases mem_done hRelease hRel with ⟨old, hOld, hR, hKind⟩
    rw [← hKind, ← hR]
    exact h.kind_of_cells hRetired hOld
  · intro r' hR'
    have hNe : r' ≠ r := Nat.ne_of_gt (Nat.lt_of_lt_of_le (h.lt_made hCell) hR')
    rcases h.unmade r' hR' with ⟨hNone, hZero, hFree⟩
    rw [hCells hNe, hCloses, hZero, beq_false_of_ne hNe, Bool.and_false]
    refine ⟨hNone, rfl, ?_⟩
    intro rel hRel
    rcases mem_done hRelease hRel with ⟨old, hOld, hR, -⟩
    rw [← hR]
    exact hFree old hOld
  · intro r' hR'
    have hCount := hOpen r'
    rw [hCloses]
    by_cases hR : r' = r
    · rcases h.balanced_some hCell with ⟨hHolders, hZero⟩
      rw [hR, beq_self_eq_true, Bool.toNat_true] at hCount
      have hSome : c.holders ≠ 0 := by omega
      rw [beq_false_of_ne hSome, Bool.and_false] at hZero
      rw [hR, hSelf, hZero]
      refine ⟨?_, by simp⟩
      dsimp only
      omega
    · rw [beq_false_of_ne (Ne.symm hR)] at hCount
      rw [hCells hR, beq_false_of_ne hR, Bool.and_false]
      have hBefore := h.balanced r' hR'
      rw [hCount] at hBefore
      exact hBefore

theorem releaseOwned (h : Sound s) (hRelease : s.releases = before ++ ⟨r, true, false⟩ :: after) :
    Sound (s.releaseOwned r before after) := by
  have hMem : (⟨r, true, false⟩ : Release) ∈ s.releases := by
    rw [hRelease]
    exact List.mem_append_right _ List.mem_cons_self
  have hNone : s.cells r = none := Option.isNone_iff_eq_none.mp (h.kind _ hMem).symm
  have hOpen : ∀ r', s.openOf r' = (s.releaseOwned r before after).openOf r' + (r == r').toNat := by
    intro r'
    unfold Accounts.openOf
    rw [hRelease]
    exact countP_done before after r r' true
  have hCloses : ∀ r',
      (s.releaseOwned r before after).closes r' = s.closes r' + (r' == r).toNat := by
    intro r'
    unfold Accounts.closes Accounts.releaseOwned
    dsimp only
    rw [Multiset.count_add, count_dueClose, Bool.true_and]
    omega
  refine ⟨h.offers.congr rfl fun _ => rfl, ?_, ?_, ?_⟩
  · intro rel hRel
    rcases mem_done hRelease hRel with ⟨old, hOld, hR, hKind⟩
    rw [← hKind, ← hR]
    exact h.kind old hOld
  · intro r' hR'
    rcases h.unmade r' hR' with ⟨hNone', hZero, hFree⟩
    have hNe : r' ≠ r := fun hEq => hFree _ hMem hEq.symm
    rw [hCloses, hZero, beq_false_of_ne hNe]
    refine ⟨hNone', rfl, ?_⟩
    intro rel hRel
    rcases mem_done hRelease hRel with ⟨old, hOld, hR, -⟩
    rw [← hR]
    exact hFree old hOld
  · intro r' hR'
    have hCount := hOpen r'
    have hBefore := h.balanced r' hR'
    rw [hCloses]
    by_cases hR : r' = r
    · rw [hR] at hCount hBefore ⊢
      rw [hNone, hCount] at hBefore
      have hStill : (s.releaseOwned r before after).cells r = none := hNone
      rw [hStill]
      rw [beq_self_eq_true, Bool.toNat_true] at hBefore ⊢
      unfold Balanced at hBefore ⊢
      omega
    · rw [beq_false_of_ne (Ne.symm hR)] at hCount
      rw [beq_false_of_ne hR]
      rw [hCount] at hBefore
      exact hBefore

theorem close (h : Sound s) (hClosing : r ∈ s.closing) : Sound (s.close r) := by
  have hCloses : ∀ r', (s.close r).closes r' = s.closes r' := by
    intro r'
    unfold Accounts.closes Accounts.close
    rw [Multiset.count_add, Multiset.count_singleton]
    split_ifs with hR
    · have hSome : 0 < s.closing.count r' := by
        rw [hR]
        exact Multiset.count_pos.mpr hClosing
      rw [hR, Multiset.count_erase_self]
      rw [hR] at hSome
      omega
    · rw [Multiset.count_erase_of_ne hR]
      omega
  refine ⟨h.offers.congr rfl fun _ => rfl, h.kind, ?_, ?_⟩
  · intro r' hR'
    rw [hCloses]
    exact h.unmade r' hR'
  · intro r' hR'
    rw [hCloses]
    exact h.balanced r' hR'

theorem move [DecidableEq K] (h : Sound s) (hMove : Move s s') : Sound s' := by
  cases hMove with
  | retire hSlot hCell => exact h.retire hSlot hCell
  | hold hSlot hCell => exact h.hold hSlot hCell
  | publish hFree => exact h.publish hFree
  | own => exact h.own
  | discard => exact h.discard
  | releaseHold hRelease hCell => exact h.releaseHold hRelease hCell
  | releaseOwned hRelease => exact h.releaseOwned hRelease
  | close hClosing => exact h.close hClosing

theorem moves [DecidableEq K] (h : Sound s) (hMoves : Relation.ReflTransGen Move s s') :
    Sound s' := by
  induction hMoves with
  | refl => exact h
  | tail _ hMove ih => exact ih.move hMove

/-
  A resource is closed at most once, not while it is held, and once after it left its slot and all
  released it.
-/
theorem closedOnce (h : Sound s) (hMade : r < s.made) :
    s.closes r ≤ 1 ∧ (0 < s.openOf r → s.closes r = 0) ∧
      (s.IsOut r → s.openOf r = 0 → s.closes r = 1) := by
  have hBalanced := h.balanced r hMade
  cases hCell : s.cells r with
  | none =>
    rw [hCell] at hBalanced
    unfold Balanced at hBalanced
    refine ⟨by omega, by omega, ?_⟩
    intro _ hOpen
    omega
  | some c =>
    rw [hCell] at hBalanced
    rcases hBalanced with ⟨hHolders, hCloses⟩
    rw [hCloses]
    refine ⟨Bool.toNat_le _, ?_, ?_⟩
    · intro hOpen
      rw [beq_false_of_ne (by omega), Bool.and_false]
      rfl
    · intro hOut hOpen
      have hRetired : c.retired = true := by
        by_contra hNot
        rcases h.offers.kept r c hCell (by simpa using hNot) with ⟨k, hSlot⟩
        exact hOut k hSlot
      rw [hRetired, hHolders, hOpen]
      rfl

end Sound

end Custody
