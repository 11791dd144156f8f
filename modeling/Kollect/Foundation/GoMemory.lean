import Kollect.Foundation.GoValue

/-
  Maps and slices in memory.

  A value of Go's `any` is a leaf or the address of a map or a slice, so code that is given one
  could change it under its other holders. Code that only allocates leaves every value it was given
  as it was.

  Key theorems include:
    * `Memory.Holds.unique`
    * `Memory.visitAll_spec`
-/

inductive Word where
  | leaf (v : GoValue)
  | slice (addr : Nat)
  | map (addr : Nat)

inductive Cell where
  | slice (words : List Word)
  | map (entries : List (Text × Word))

abbrev Memory := List Cell

namespace Memory

----
-- Contents
----

/- The value a word stands for. -/
inductive Holds (mem : Memory) : Word → GoValue → Prop where
  | leaf
      {v : GoValue}
      (hLeaf : v.isLeaf = true) :
      Holds mem (.leaf v) v
  | slice
      {addr : Nat}
      {words : List Word}
      {xs : List GoValue}
      (hCell : mem[addr]? = some (.slice words))
      (hLength : words.length = xs.length)
      (hAll : ∀ w x, (w, x) ∈ words.zip xs → Holds mem w x) :
      Holds mem (.slice addr) (.list xs)
  | map
      {addr : Nat}
      {entries : List (Text × Word)}
      {members : List (Text × GoValue)}
      (hCell : mem[addr]? = some (.map entries))
      (hLength : entries.length = members.length)
      (hKeys : ∀ entry member, (entry, member) ∈ entries.zip members → entry.1 = member.1)
      (hAll : ∀ entry member, (entry, member) ∈ entries.zip members → Holds mem entry.2 member.2) :
      Holds mem (.map addr) (.map members)

/- An entry of a map cell and the member it stands for. -/
def HoldsMember (mem : Memory) (entry : Text × Word) (member : Text × GoValue) : Prop :=
  entry.1 = member.1 ∧ Holds mem entry.2 member.2

variable {mem : Memory} {w : Word}

theorem holds_list_iff {xs : List GoValue} :
    Holds mem w (.list xs) ↔ ∃ addr words, w = .slice addr ∧ mem[addr]? = some (.slice words) ∧
        List.Forall₂ (Holds mem) words xs := by
  constructor
  · intro hHolds
    cases hHolds with
    | leaf hLeaf => exact Bool.noConfusion hLeaf
    | @slice addr words _ hCell hLength hAll =>
      refine ⟨addr, words, rfl, hCell, ?_⟩
      exact List.forall₂_iff_zip.mpr ⟨hLength, fun {w x} hMem => hAll w x hMem⟩
  · rintro ⟨addr, words, rfl, hCell, hAll⟩
    rw [List.forall₂_iff_zip] at hAll
    exact .slice hCell hAll.1 (fun w x hMem => hAll.2 hMem)

theorem holds_map_iff {members : List (Text × GoValue)} :
    Holds mem w (.map members) ↔ ∃ addr entries, w = .map addr ∧ mem[addr]? = some (.map entries) ∧
        List.Forall₂ (HoldsMember mem) entries members := by
  constructor
  · intro hHolds
    cases hHolds with
    | leaf hLeaf => exact Bool.noConfusion hLeaf
    | @map addr entries _ hCell hLength hKeys hAll =>
      refine ⟨addr, entries, rfl, hCell, ?_⟩
      exact List.forall₂_iff_zip.mpr
        ⟨hLength, fun {entry member} hMem => ⟨hKeys entry member hMem, hAll entry member hMem⟩⟩
  · rintro ⟨addr, entries, rfl, hCell, hAll⟩
    rw [List.forall₂_iff_zip] at hAll
    exact .map hCell hAll.1 (fun entry member hMem => (hAll.2 hMem).1)
      (fun entry member hMem => (hAll.2 hMem).2)

variable {mem' : Memory}

theorem getElem?_of_grows {addr : Nat} {cell : Cell} (hGrows : mem <+: mem')
    (hCell : mem[addr]? = some cell) : mem'[addr]? = some cell := by
  rcases hGrows with ⟨rest, rfl⟩
  rw [List.getElem?_append_left (List.getElem?_eq_some_iff.mp hCell).1]
  exact hCell

theorem Holds.mono {v : GoValue} (hGrows : mem <+: mem') (hHolds : Holds mem w v) :
    Holds mem' w v := by
  induction hHolds with
  | leaf hLeaf => exact .leaf hLeaf
  | slice hCell hLength _ ih => exact .slice (getElem?_of_grows hGrows hCell) hLength ih
  | map hCell hLength hKeys _ ih => exact .map (getElem?_of_grows hGrows hCell) hLength hKeys ih

theorem HoldsMember.mono {entry : Text × Word} {member : Text × GoValue} (hGrows : mem <+: mem')
    (hEntry : HoldsMember mem entry member) : HoldsMember mem' entry member :=
  ⟨hEntry.1, hEntry.2.mono hGrows⟩

theorem forall₂_right_unique {α β : Type} {R S : α → β → Prop} {words : List α}
    {xs ys : List β} (hXs : List.Forall₂ R words xs) (hYs : List.Forall₂ S words ys)
    (hUnique : ∀ x ∈ xs, ∀ w y, R w x → S w y → x = y) : xs = ys := by
  induction hXs generalizing ys with
  | nil =>
    cases hYs with
    | nil => rfl
  | @cons w x words xs hX _ ih =>
    cases hYs with
    | @cons _ y _ ys hY hYs =>
      rw [hUnique x List.mem_cons_self w y hX hY,
        ih hYs (fun x' hMem => hUnique x' (List.mem_cons_of_mem x hMem))]

theorem Holds.unique {v v' : GoValue} (hHolds : Holds mem w v) (hHolds' : Holds mem w v') :
    v = v' := by
  induction v using GoValue.induct generalizing w v' with
  | leaf v hLeaf =>
    cases hHolds with
    | leaf _ =>
      cases hHolds' with
      | leaf _ => rfl
    | slice | map => exact Bool.noConfusion hLeaf
  | list xs ih =>
    rcases holds_list_iff.mp hHolds with ⟨addr, words, rfl, hCell, hAll⟩
    cases hHolds' with
    | @slice _ words' ys hCell' hLength' hAll' =>
      have hOther := holds_list_iff.mp (Holds.slice hCell' hLength' hAll')
      rcases hOther with ⟨_, words', hWord, hCell', hAll'⟩
      cases hWord
      rw [hCell, Option.some.injEq, Cell.slice.injEq] at hCell'
      subst hCell'
      rw [GoValue.list.injEq]
      apply forall₂_right_unique hAll hAll'
      intro x hMem w y hX hY
      exact ih x hMem hX hY
  | map members ih =>
    rcases holds_map_iff.mp hHolds with ⟨addr, entries, rfl, hCell, hAll⟩
    cases hHolds' with
    | @map _ _ ys hCell' hLength' hKeys' hAll' =>
      have hOther := holds_map_iff.mp (Holds.map hCell' hLength' hKeys' hAll')
      rcases hOther with ⟨_, entries', hWord, hCell', hAll'⟩
      cases hWord
      rw [hCell, Option.some.injEq, Cell.map.injEq] at hCell'
      subst hCell'
      rw [GoValue.map.injEq]
      apply forall₂_right_unique hAll hAll'
      intro member hMem entry y hX hY
      exact Prod.ext (hX.1.symm.trans hY.1) (ih member hMem hX.2 hY.2)

----
-- Visits
----

section

variable {α β γ : Type}

/- Visit the parts of a cell in order. -/
def visitAll (visit : Memory → α → Option (Memory × β)) : Memory → List α → Option (Memory × List β)
  | mem, [] => some (mem, [])
  | mem, a :: rest => do
      let (mem, b) ← visit mem a
      let (mem, bs) ← visitAll visit mem rest
      return (mem, b :: bs)

variable {visit : Memory → α → Option (Memory × β)}

theorem visitAll_mono {visit' : Memory → α → Option (Memory × β)}
    (hVisit : ∀ mem a found, visit mem a = some found → visit' mem a = some found) {mem : Memory}
    {parts : List α} {found : Memory × List β} (hFound : visitAll visit mem parts = some found) :
    visitAll visit' mem parts = some found := by
  induction parts generalizing mem found with
  | nil => exact hFound
  | cons a rest ih =>
    rw [visitAll] at hFound
    rcases Option.bind_eq_some_iff.mp hFound with ⟨⟨mem₁, b⟩, hFirst, hRest⟩
    rcases Option.bind_eq_some_iff.mp hRest with ⟨⟨mem₂, bs⟩, hOthers, hPair⟩
    simp only [visitAll, hVisit _ _ _ hFirst, ih hOthers, Option.bind_eq_bind, Option.bind_some]
    exact hPair

/-
  When a visit succeeds for every part in any later memory, all are visited one after another; what
  a visit gives is still held when the last is done.
-/
theorem visitAll_spec {Needs : α → γ → Prop} (Gives : Memory → β → γ → Prop)
    (hMono : ∀ mem mem' b c, mem <+: mem' → Gives mem b c → Gives mem' b c) {start mem : Memory}
    {parts : List α} {wanted : List γ} (hParts : List.Forall₂ Needs parts wanted)
    (hVisit : ∀ a, ∀ c ∈ wanted, Needs a c →
      ∀ mem, start <+: mem → ∃ mem' b, visit mem a = some (mem', b) ∧ mem <+: mem' ∧ Gives mem' b c)
    (hStart : start <+: mem) : ∃ mem' bs, visitAll visit mem parts = some (mem', bs) ∧
      mem <+: mem' ∧ List.Forall₂ (Gives mem') bs wanted := by
  induction hParts generalizing mem with
  | nil => exact ⟨mem, [], rfl, List.prefix_rfl, .nil⟩
  | @cons a c parts wanted hNeeds _ ih =>
    rcases hVisit a c List.mem_cons_self hNeeds mem hStart with ⟨mem₁, b, hFirst, hGrows₁, hGives⟩
    have hRest := fun a' c' hMem => hVisit a' c' (List.mem_cons_of_mem c hMem)
    rcases ih hRest (hStart.trans hGrows₁) with ⟨mem₂, bs, hOthers, hGrows₂, hAll⟩
    refine ⟨mem₂, b :: bs, ?_, hGrows₁.trans hGrows₂, ?_⟩
    · simp [visitAll, hFirst, hOthers]
    · exact .cons (hMono mem₁ mem₂ b c hGrows₂ hGives) hAll

end

end Memory
