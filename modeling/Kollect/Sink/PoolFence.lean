import Kollect.Sink.BackendPool

/-
  What the backend pool hands out, and what it keeps (`sink/backend_pool.go`).

  The key of an entry stands for the spec and the Secrets its backend was built from, so an acquire
  only gets what matches something it has read. A retire gives the key a generation that was never
  used before; a build that began under an older one is not pooled, whatever has aged out since.

  Key theorems include:
    * `poolEntryKey_inj`
    * `acquires_fresh_and_fenced`
-/

namespace Kollect
namespace Sink

----
-- Entry Keys
----

/- The parts of a text behind NULs, and what comes first. -/
theorem nul_parts_inj {head head' : Text} {parts parts' : List Text}
    (hHead : '\x00' ∉ head) (hHead' : '\x00' ∉ head') (hParts : ∀ part ∈ parts, '\x00' ∉ part)
    (hParts' : ∀ part ∈ parts', '\x00' ∉ part)
    (hEq : head ++ parts.flatMap (List.cons '\x00') = head' ++ parts'.flatMap (List.cons '\x00')) :
    head = head' ∧ parts = parts' := by
  induction parts generalizing head head' parts' with
  | nil =>
    cases parts' with
    | nil => exact ⟨by simpa using hEq, rfl⟩
    | cons part parts' =>
      -- a NUL on one side only
      rw [List.flatMap_nil, List.append_nil] at hEq
      rw [hEq] at hHead
      exact absurd (by simp) hHead
  | cons part parts ih =>
    cases parts' with
    | nil =>
      rw [List.flatMap_nil, List.append_nil] at hEq
      rw [← hEq] at hHead'
      exact absurd (by simp) hHead'
    | cons part' parts' =>
      rw [List.forall_mem_cons] at hParts hParts'
      rw [List.flatMap_cons, List.flatMap_cons, List.cons_append, List.cons_append] at hEq
      rcases (Text.append_sep_inj hHead hHead').mp hEq with ⟨hFirst, hRest⟩
      rcases ih hParts.1 hParts'.1 hParts.2 hParts'.2 hRest with ⟨hPart, hOthers⟩
      rw [hFirst, hPart, hOthers]
      exact ⟨rfl, rfl⟩

variable {versions versions' : List SecretVersion}

theorem parts_inj
    (hEq : versions.flatMap SecretVersion.parts = versions'.flatMap SecretVersion.parts) :
    versions = versions' := by
  induction versions generalizing versions' with
  | nil =>
    cases versions' with
    | nil => rfl
    | cons v versions' => cases hEq
  | cons v versions ih =>
    cases versions' with
    | nil => cases hEq
    | cons v' versions' =>
      rcases v with ⟨_, _, _, _, _⟩
      rcases v' with ⟨_, _, _, _, _⟩
      simp only [List.flatMap_cons, SecretVersion.parts, List.cons_append, List.nil_append,
        List.cons.injEq] at hEq
      rcases hEq with ⟨h₁, h₂, h₃, h₄, hRest⟩
      subst h₁ h₂ h₃ h₄
      rw [ih hRest]

variable {hash : Text → Text} {specHash : Text}

/- An entry key determines the spec and the Secrets. -/
theorem poolEntryKey_inj (hInj : Function.Injective hash) {specHash' : Text}
    (hPlain : '\x00' ∉ specHash) (hPlain' : '\x00' ∉ specHash')
    (hEq : poolEntryKey hash specHash versions = poolEntryKey hash specHash' versions') :
    specHash = specHash' ∧ versions = versions' := by
  have hNul : ∀ versions : List SecretVersion,
      ∀ part ∈ versions.flatMap SecretVersion.parts, '\x00' ∉ part := by
    intro versions part hPart
    rcases List.mem_flatMap.mp hPart with ⟨v, -, hMem⟩
    exact v.plain part hMem
  rcases nul_parts_inj hPlain hPlain' (hNul versions)
    (hNul versions') (hInj hEq) with ⟨hSpec, hParts⟩
  exact ⟨hSpec, parts_inj hParts⟩

----
-- How The Pool Evolves
----

namespace Pool

/- Generations are drawn from the counter. -/
def Bounded (p : Pool) : Prop :=
  ∀ key generation,
    p.generations.lookup key = some generation → 0 < generation.value ∧ generation.value ≤ p.counter

/-
  What a section does to the pool, a store apart. A key keeps its generation, or loses it, or gets a
  new one; when it was retired, it does not keep it.
-/
structure Evolves (p p' : Pool) : Prop where
  counter : p.counter ≤ p'.counter
  bounded : p.Bounded → p'.Bounded
  value : ∀ key, p'.generationValue key = 0 ∨ p.counter < p'.generationValue key ∨
    p'.generationValue key = p.generationValue key ∧
      p'.retirements.count key = p.retirements.count key
  heap : ∀ b entry', p'.heap.lookup b = some entry' →
    ∃ entry, p.heap.lookup b = some entry ∧ entry'.key = entry.key
  entries : ∀ key b, p'.entries.lookup key = some b → p.entries.lookup key = some b

namespace Evolves

theorem refl (p : Pool) : p.Evolves p where
  counter := le_rfl
  bounded hBounded := hBounded
  value _ := .inr (.inr ⟨rfl, rfl⟩)
  heap _ entry hHeap := ⟨entry, hHeap, rfl⟩
  entries _ _ hSlot := hSlot

theorem trans {p q r : Pool} (hPQ : p.Evolves q) (hQR : q.Evolves r) : p.Evolves r where
  counter := hPQ.counter.trans hQR.counter
  bounded hBounded := hQR.bounded (hPQ.bounded hBounded)
  value key := by
    have hCounter := hPQ.counter
    rcases hQR.value key with hZero | hNew | ⟨hSame, hCount⟩
    · exact .inl hZero
    · exact .inr (.inl (by omega))
    · rw [hSame, hCount]
      exact hPQ.value key
  heap b entry hHeap := by
    rcases hQR.heap b entry hHeap with ⟨mid, hMid, hKey⟩
    rcases hPQ.heap b mid hMid with ⟨first, hFirst, hKey'⟩
    exact ⟨first, hFirst, hKey.trans hKey'⟩
  entries key b hSlot := hPQ.entries key b (hQR.entries key b hSlot)

theorem setEntry {p : Pool} {b : Nat} {entry entry' : PooledEntry}
    (hHeap : p.heap.lookup b = some entry) (hKey : entry'.key = entry.key) :
    p.Evolves (p.setEntry b entry') where
  counter := le_rfl
  bounded hBounded := hBounded
  value _ := .inr (.inr ⟨rfl, rfl⟩)
  heap b' e hLook := by
    unfold Pool.setEntry at hLook
    rw [GoMap.lookup_insert_ite] at hLook
    split_ifs at hLook with hSame
    · cases hLook
      rw [hSame]
      exact ⟨entry, hHeap, hKey⟩
    · exact ⟨e, hLook, rfl⟩
  entries _ _ hSlot := hSlot

end Evolves

theorem generationValue_bump (p : Pool) (key k : Text) (now : Int) :
    (bumpGenerationLocked key now p).generationValue k =
      if k = key then p.counter + 1
      else p.generationValue k := by
  unfold generationValue bumpGenerationLocked
  rw [GoMap.lookup_insert_ite]
  split_ifs
  · rfl
  · rfl

theorem bounded_bump {p : Pool} (hBounded : p.Bounded) (key : Text) (now : Int) :
    (bumpGenerationLocked key now p).Bounded := by
  intro k generation hLook
  unfold bumpGenerationLocked at hLook ⊢
  rw [GoMap.lookup_insert_ite] at hLook
  split_ifs at hLook
  · cases hLook
    exact ⟨Nat.succ_pos _, le_rfl⟩
  · rcases hBounded k generation hLook with ⟨hPos, hLe⟩
    exact ⟨hPos, Nat.le_succ_of_le hLe⟩

namespace Evolves

variable (key : Text) (now : Int) (p : Pool)

theorem bump : p.Evolves (bumpGenerationLocked key now p) where
  counter := Nat.le_succ p.counter
  bounded hBounded := bounded_bump hBounded key now
  value k := by
    rw [generationValue_bump]
    split_ifs
    · exact .inr (.inl (Nat.lt_succ_self _))
    · exact .inr (.inr ⟨rfl, rfl⟩)
  heap _ entry hHeap := ⟨entry, hHeap, rfl⟩
  entries _ _ hSlot := hSlot

theorem generation (key : Text) (now : Int) (p : Pool) :
    p.Evolves (generationLocked key now p).1 := by
  unfold generationLocked
  cases p.generations.lookup key with
  | some generation => exact .refl p
  | none => exact .bump key now p

theorem retire : p.Evolves (retireLocked key now p).1 := by
  -- the key is written down under its new generation
  have hLogged : p.Evolves
      { bumpGenerationLocked key now p with retirements := key :: p.retirements } :=
    { Evolves.bump key now p with
      bounded := fun hBounded => bounded_bump hBounded key now
      value := by
        intro k
        have hValue := generationValue_bump p key k now
        by_cases hKey : k = key
        · rw [if_pos hKey] at hValue
          exact .inr (.inl (hValue ▸ Nat.lt_succ_self _))
        · rw [if_neg hKey] at hValue
          exact .inr (.inr ⟨hValue, List.count_cons_of_ne (Ne.symm hKey)⟩) }
  unfold retireLocked
  dsimp only
  cases hEntry : ({ bumpGenerationLocked key now p with
      retirements := key :: p.retirements } : Pool).entryOf key
    with
  | none => exact hLogged
  | some pair =>
    rcases pair with ⟨b, entry⟩
    have hHeap := (entryOf_eq_some hEntry).2
    have hMarked := hLogged.trans
      (Evolves.setEntry hHeap (show { entry with retired := true }.key = entry.key from rfl))
    exact
      { hMarked with
        entries := by
          intro k b' hSlot
          rw [GoMap.lookup_erase_ite] at hSlot
          split_ifs at hSlot
          exact hSlot }

theorem release (b : Nat) (p : Pool) : p.Evolves (releaseLocked b p).1 := by
  unfold releaseLocked
  cases hHeap : p.heap.lookup b with
  | none => exact .refl p
  | some entry => exact .setEntry hHeap rfl

theorem tombstones (tombs : GoMap Text Int) (p : Pool) :
    p.Evolves { p with tombstones := tombs } where
  counter := le_rfl
  bounded hBounded := hBounded
  value _ := .inr (.inr ⟨rfl, rfl⟩)
  heap _ entry hHeap := ⟨entry, hHeap, rfl⟩
  entries _ _ hSlot := hSlot

/- Ageing only takes generations and tombstones away. -/
theorem ageing (now : Int) (p : Pool) : p.Evolves (pruneExpiredTombstonesLocked now p) := by
  have hValue : ∀ key,
      (pruneExpiredTombstonesLocked now p).generationValue key = 0 ∨
        (pruneExpiredTombstonesLocked now p).generationValue key = p.generationValue key := by
    intro key
    unfold pruneExpiredTombstonesLocked generationValue
    rw [GoMap.lookup_filterKeys]
    split_ifs
    · exact .inr rfl
    · exact .inl rfl
  exact
    { counter := le_rfl
      bounded := by
        intro hBounded key generation hLook
        unfold pruneExpiredTombstonesLocked at hLook
        rw [GoMap.lookup_filterKeys] at hLook
        split_ifs at hLook
        exact hBounded key generation hLook
      value := by
        intro key
        rcases hValue key with hZero | hSame
        · exact .inl hZero
        · exact .inr (.inr ⟨hSame, rfl⟩)
      heap := fun _ entry hHeap => ⟨entry, hHeap, rfl⟩
      entries := fun _ _ hSlot => hSlot }

theorem prune (order : List Text) (now : Int) (p : Pool) :
    p.Evolves (pruneStaleEntriesLocked order now p).1 := by
  have hWalk : ∀ walk : Pool × List Nat, walk.1.Evolves (order.foldl (pruneEntry now) walk).1 := by
    induction order with
    | nil => exact fun walk => .refl walk.1
    | cons key order ih =>
      intro walk
      refine Evolves.trans ?_ (ih _)
      unfold pruneEntry
      cases walk.1.entryOf key with
      | none => exact .refl walk.1
      | some pair =>
        dsimp only
        split_ifs
        · exact .retire key now walk.1
        · exact .refl walk.1
  exact (hWalk (p, [])).trans (.ageing now _)

theorem lookupEntry (key specHash entryKey : Text) (readGeneration : Nat)
    (force : Bool) (now : Int) (p : Pool) :
    p.Evolves (Sink.lookupEntry key specHash entryKey readGeneration force now p).1 := by
  unfold Sink.lookupEntry
  cases hEntry : p.entryOf key with
  | none => exact .refl p
  | some pair =>
    rcases pair with ⟨b, entry⟩
    dsimp only
    split_ifs
    · exact .setEntry (entryOf_eq_some hEntry).2 rfl
    · exact .retire key now p
    · exact .generation key now p
    · exact (Evolves.generation key now p).trans (.retire key now _)

theorem lookupOrRetire (key specHash entryKey : Text) (readGeneration : Nat)
    (force : Bool) (now : Int) (order : List Text) (p : Pool) :
    p.Evolves (Sink.lookupOrRetire key specHash entryKey readGeneration force now order p).1 :=
  ((Evolves.prune order now p).trans
    (.lookupEntry key specHash entryKey readGeneration force now _)).trans (.generation key now _)

theorem retirePoolEntry (key : Text) (readGeneration : Nat) (force : Bool) (now : Int) (p : Pool) :
    p.Evolves (Sink.retirePoolEntry key readGeneration force now p).1 := by
  unfold Sink.retirePoolEntry
  cases p.entryOf key with
  | none => exact .retire key now p
  | some pair =>
    dsimp only
    split_ifs
    · exact .retire key now p
    · exact .generation key now p
    · exact (Evolves.generation key now p).trans (.retire key now _)

theorem retireEntryWithKey (key entryKey : Text) (now : Int) (p : Pool) :
    p.Evolves (Sink.retireEntryWithKey key entryKey now p).1 := by
  unfold Sink.retireEntryWithKey
  cases p.entryOf key with
  | none => exact .refl p
  | some pair =>
    dsimp only
    split_ifs
    · exact .retire key now p
    · exact .refl p

theorem evictForDelete : p.Evolves (evictPoolKeyForDelete key now p).1 :=
  ((Evolves.retire key now p).trans (.tombstones _ _)).trans (.ageing now _)

end Evolves

/- The generation that is read is one of the counter. -/
theorem generationLocked_pos {p : Pool} (hBounded : p.Bounded) (key : Text) (now : Int) :
    0 < (generationLocked key now p).2 ∧
      (generationLocked key now p).2 ≤ (generationLocked key now p).1.counter := by
  unfold generationLocked
  cases hLook : p.generations.lookup key with
  | some generation => exact hBounded key generation hLook
  | none => exact ⟨Nat.succ_pos _, le_rfl⟩

/- What a store does to the pool. -/
structure Stores (key : Text) (generation next : Nat) (entry : PooledEntry)
    (p p' : Pool) (stored : Stored) : Prop where
  counter : p.counter ≤ p'.counter
  bounded : p.Bounded → p'.Bounded
  value : ∀ k, p.counter < p'.generationValue k ∨ p'.generationValue k = p.generationValue k
  retirements : p'.retirements = p.retirements
  heap : ∀ b entry', p'.heap.lookup b = some entry' →
    b = next ∧ entry'.key = entry.key ∨ ∃ old, p.heap.lookup b = some old ∧ entry'.key = old.key
  entries : ∀ k b, p'.entries.lookup k = some b →
    p.entries.lookup k = some b ∨ b = next ∧ p.generationValue key = generation
  given :
    (stored.given next).resource = next ∨
      ∃ old, p.heap.lookup (stored.given next).resource = some old ∧ old.key = entry.key

theorem stores_own (key : Text) (generation next : Nat) (entry : PooledEntry) (p : Pool) :
    Stores key generation next entry p p .owned where
  counter := le_rfl
  bounded hBounded := hBounded
  value _ := .inr rfl
  retirements := rfl
  heap _ old hHeap := .inr ⟨old, hHeap, rfl⟩
  entries _ _ hSlot := .inl hSlot
  given := .inl rfl

theorem stores_storePooledBackend
    (key : Text) (generation next : Nat) (entry : PooledEntry) (p : Pool) :
    Stores key generation next entry p (storePooledBackend key generation next entry p).1
      (storePooledBackend key generation next entry p).2 := by
  unfold storePooledBackend
  by_cases hDeleted : (p.tombstones.lookup key).isSome = true
  · rw [if_pos hDeleted]
    exact stores_own key generation next entry p
  · rw [if_neg hDeleted]
    cases hEntry : p.entryOf key with
    | some pair =>
      rcases pair with ⟨b, old⟩
      have hHeap := (entryOf_eq_some hEntry).2
      dsimp only
      split_ifs with hKey
      · have hHold : p.Evolves (holdLocked b { old with lastUsed := entry.lastUsed } p) :=
          .setEntry hHeap rfl
        exact
          { counter := le_rfl
            bounded := hHold.bounded
            value := fun _ => .inr rfl
            retirements := rfl
            heap := fun b' e hLook => .inr (hHold.heap b' e hLook)
            entries := fun _ _ hSlot => .inl hSlot
            given := .inr ⟨old, hHeap, hKey⟩ }
      · exact stores_own key generation next entry p
    | none =>
      split_ifs with hGeneration
      · exact
          { counter := Nat.le_succ _
            bounded := fun hBounded =>
              bounded_bump (fun k g hLook => hBounded k g hLook) key entry.lastUsed
            value := by
              intro k
              rw [generationValue_bump]
              split_ifs
              · exact .inl (Nat.lt_succ_self _)
              · exact .inr rfl
            retirements := rfl
            heap := by
              intro b entry' hLook
              unfold bumpGenerationLocked at hLook
              rw [GoMap.lookup_insert_ite] at hLook
              split_ifs at hLook with hNext
              · cases hLook
                exact .inl ⟨hNext, rfl⟩
              · exact .inr ⟨entry', hLook, rfl⟩
            entries := by
              intro k b hSlot
              unfold bumpGenerationLocked at hSlot
              rw [GoMap.lookup_insert_ite] at hSlot
              split_ifs at hSlot
              · cases hSlot
                exact .inr ⟨rfl, hGeneration⟩
              · exact .inl hSlot
            given := .inl rfl }
      · exact stores_own key generation next entry p

end Pool

----
-- What A Step Can Do
----

/- The generation under which a backend is being built. -/
def Phase.inFlight : Phase → Option Nat
  | .fetching generation _ => some generation
  | .storing generation _ _ => some generation
  | _ => none

/- The acquire has left the lookup behind. -/
def Phase.settled : Phase → Bool
  | .fetching _ _ => true
  | .fetchedGone => true
  | .storing _ _ _ => true
  | .done _ => true
  | .failed => true
  | _ => false

/- The phase holds nothing that was read, and no backend. -/
def Phase.idle : Phase → Bool
  | .looking _ _ _ => false
  | .fetching _ _ => false
  | .storing _ _ _ => false
  | .done _ => false
  | _ => true

/- From one phase to another, with nothing in the hands. -/
def Phase.mayMove (old new : Phase) : Bool :=
  new.idle && (!old.settled || new.settled) &&
    match old with
    | .done _ => false
    | _ => true

/- The steps of an acquire, its store apart. -/
inductive Advance (hash : Text → Text) (p p' : Pool) (a : Acquire) : Acquire → Prop
  | move (phase : Phase)
      (hMove : a.phase.mayMove phase = true) : Advance hash p p' a { a with phase := phase }
  | read (attempt generation : Nat) (found : List SecretVersion)
      (hPhase : a.phase.settled = false) : Advance hash p p' a
        { a with
          phase := .looking attempt generation found
          reads := found :: a.reads }
  | hit (attempt generation : Nat) (found : List SecretVersion) (b : Nat) (entry : PooledEntry)
      (hPhase : a.phase = .looking attempt generation found) (hHeap : p.heap.lookup b = some entry)
      (hKey : entry.key = poolEntryKey hash (specFingerprint hash a.call) found) :
      Advance hash p p' a { a with phase := .done b }
  | miss (attempt readGeneration : Nat) (found : List SecretVersion) (generation : Nat) (now : Int)
      (hPhase : a.phase = .looking attempt readGeneration found)
      (hDrawn : p.Bounded → 0 < generation ∧ generation ≤ p'.counter) :
      Advance hash p p' a { a with phase := .fetching generation now }
  | fetch (generation : Nat) (now : Int) (found : List SecretVersion)
      (hPhase : a.phase = .fetching generation now) (hPool : p' = p) : Advance hash p p' a
        { a with
          phase := .storing generation now found
          reads := found :: a.reads }

variable {p : Pool}

theorem Advance.not_done {p' : Pool} {a a' : Acquire} (hAdvance : Advance hash p p' a a')
    (b : Nat) : a.phase ≠ .done b := by
  intro hDone
  cases hAdvance with
  | move phase hMove =>
    rw [hDone] at hMove
    unfold Phase.mayMove at hMove
    rw [Bool.and_false] at hMove
    cases hMove
  | read attempt generation found hPhase =>
    rw [hDone] at hPhase
    cases hPhase
  | hit attempt generation found b entry hPhase =>
    rw [hDone] at hPhase
    cases hPhase
  | miss attempt readGeneration found generation now hPhase =>
    rw [hDone] at hPhase
    cases hPhase
  | fetch generation now found hPhase =>
    rw [hDone] at hPhase
    cases hPhase

/- Behind the lookup, a build goes on or is given up. -/
theorem Advance.of_settled {p' : Pool} {a a' : Acquire} (hAdvance : Advance hash p p' a a')
    (hSettled : a.phase.settled = true) : a'.phase.settled = true ∧ a'.call = a.call ∧
      (a'.phase.inFlight = none ∨ p' = p ∧ a'.phase.inFlight = a.phase.inFlight) := by
  cases hAdvance with
  | move phase hMove =>
    unfold Phase.mayMove at hMove
    rw [hSettled, Bool.not_true, Bool.false_or, Bool.and_eq_true, Bool.and_eq_true] at hMove
    refine ⟨hMove.1.2, rfl, .inl ?_⟩
    have hIdle := hMove.1.1
    cases phase with
    | fetching | storing => cases hIdle
    | _ => rfl
  | read attempt generation found hPhase =>
    rw [hPhase] at hSettled
    cases hSettled
  | hit attempt generation found b entry hPhase =>
    rw [hPhase] at hSettled
    cases hSettled
  | miss attempt readGeneration found generation now hPhase =>
    rw [hPhase] at hSettled
    cases hSettled
  | fetch generation now found hPhase hPool =>
    rw [hPhase]
    exact ⟨rfl, rfl, .inr ⟨hPool, rfl⟩⟩

/- A step of the system, as far as the fence is concerned. -/
inductive Takes (hash : Text → Text) (s : PoolSystem) : PoolSystem → Prop
  | stay {s' : PoolSystem} (hPool : s.pool.Evolves s'.pool) (hAcquires : s'.acquires = s.acquires)
      (hBuilds : s'.builds = s.builds) : Takes hash s s'
  | enter (call : AcquireCall) : Takes hash s (s.step hash (.acquire call))
  | advance {s' : PoolSystem} (i : Nat) (a a' : Acquire) (hAcquire : s.acquires[i]? = some a)
      (hPool : s.pool.Evolves s'.pool) (hAdvance : Advance hash s.pool s'.pool a a')
      (hAcquires : s'.acquires = s.acquires.set i a')
      (hBuilds : s'.builds = s.builds) : Takes hash s s'
  | store (i : Nat) (a : Acquire) (generation : Nat) (now : Int) (built : List SecretVersion)
      (hAcquire : s.acquires[i]? = some a)
      (hPhase : a.phase = .storing generation now built) :
      Takes hash s (s.stepStore hash i a generation now built)

/- What a lookup found, in terms of the pool before it. -/
theorem lookupEntry_hit {key entryKey : Text} {readGeneration : Nat} {force : Bool} {now : Int}
    {b : Nat} (hHit : (lookupEntry key specHash entryKey readGeneration force now p).2.1 = .hit b) :
    ∃ entry, p.heap.lookup b = some entry ∧ entry.key = entryKey := by
  unfold lookupEntry at hHit
  cases hEntry : p.entryOf key with
  | none =>
    rw [hEntry] at hHit
    cases hHit
  | some pair =>
    rcases pair with ⟨b', entry⟩
    rw [hEntry] at hHit
    dsimp only at hHit
    split_ifs at hHit with hKey
    cases hHit
    exact ⟨entry, (entryOf_eq_some hEntry).2, hKey⟩

theorem lookupOrRetire_hit {key specHash entryKey : Text} {readGeneration : Nat} {force : Bool}
    {now : Int} {order : List Text} {p : Pool} {b : Nat}
    (hHit : (lookupOrRetire key specHash entryKey readGeneration force now order p).2.1.found =
      .hit b) : ∃ entry, p.heap.lookup b = some entry ∧ entry.key = entryKey := by
  rcases lookupEntry_hit hHit with ⟨entry, hHeap, hKey⟩
  rcases (Pool.Evolves.prune order now p).heap b entry hHeap with ⟨old, hOld, hSame⟩
  exact ⟨old, hOld, hSame.symm.trans hKey⟩

theorem lookupOrRetire_drawn (key specHash entryKey : Text) (readGeneration : Nat) (force : Bool)
    (now : Int) (order : List Text) (hBounded : p.Bounded) :
    let look := lookupOrRetire key specHash entryKey readGeneration force now order p
    0 < look.2.1.generation ∧ look.2.1.generation ≤ look.1.counter :=
  Pool.generationLocked_pos (((Pool.Evolves.prune order now p).trans
      (.lookupEntry key specHash entryKey readGeneration force now _)).bounded hBounded) key now

namespace PoolSystem

section Takes

variable {s : PoolSystem} {i : Nat} {a : Acquire} {hash : Text → Text}

variable (hAcquire : s.acquires[i]? = some a)

include hAcquire in
theorem takes_move {old : Phase} (hPhase : a.phase = old) {p : Pool} {closes : List Nat}
    {phase : Phase} (hMove : old.mayMove phase = true) (hPool : s.pool.Evolves p) :
    Takes hash s ((s.withPool p closes).setPhase i a phase) :=
  .advance i a _ hAcquire hPool (.move phase (hPhase ▸ hMove)) rfl rfl

include hAcquire in
theorem takes_stepLookup {attempt generation : Nat} {found : List SecretVersion}
    (hPhase : a.phase = .looking attempt generation found) (now : Int) (order : List Text) :
    Takes hash s (s.stepLookup hash i a attempt generation found now order) := by
  have hPool := Pool.Evolves.lookupOrRetire a.call.key (specFingerprint hash a.call)
    (poolEntryKey hash (specFingerprint hash a.call) found)
    generation (decide (poolReadAttempts ≤ attempt)) now order s.pool
  have hDrawn := fun hBounded : s.pool.Bounded =>
    lookupOrRetire_drawn a.call.key (specFingerprint hash a.call)
      (poolEntryKey hash (specFingerprint hash a.call) found)
      generation (decide (poolReadAttempts ≤ attempt)) now order hBounded
  have hHit := fun b => @lookupOrRetire_hit a.call.key (specFingerprint hash a.call)
    (poolEntryKey hash (specFingerprint hash a.call) found)
    generation (decide (poolReadAttempts ≤ attempt)) now order s.pool b
  unfold stepLookup
  dsimp only at hDrawn ⊢
  generalize lookupOrRetire a.call.key (specFingerprint hash a.call)
    (poolEntryKey hash (specFingerprint hash a.call) found)
    generation (decide (poolReadAttempts ≤ attempt)) now order
    s.pool = result at hPool hDrawn hHit ⊢
  rcases result with ⟨p, ⟨f, g, n⟩, closes⟩
  cases f with
  | hit b =>
    rcases hHit b rfl with ⟨entry, hHeap, hKey⟩
    exact .advance i a _ hAcquire hPool
      (.hit attempt generation found b entry hPhase hHeap hKey)
      rfl rfl
  | reread staleKey => exact takes_move hAcquire hPhase rfl hPool
  | miss previous =>
    exact .advance i a _ hAcquire hPool (.miss attempt generation found g n hPhase hDrawn) rfl rfl

include hAcquire in
theorem takes_stepRetireGone {attempt generation : Nat}
    (hPhase : a.phase = .observedGone attempt generation) (now : Int) :
    Takes hash s (s.stepRetireGone i a attempt generation now) := by
  have hPool := Pool.Evolves.retirePoolEntry a.call.key
    generation (decide (poolReadAttempts ≤ attempt)) now s.pool
  unfold stepRetireGone
  generalize retirePoolEntry a.call.key generation
    (decide (poolReadAttempts ≤ attempt)) now s.pool = result at hPool ⊢
  rcases result with ⟨p, staleKey, close⟩
  cases staleKey with
  | none | some => exact takes_move hAcquire hPhase rfl hPool

include hAcquire in
theorem takes_stepAcquire (e : AcquireEvent) : Takes hash s (s.stepAcquire hash i a e) := by
  -- the phases that are left without a look at the pool
  have hStay : ∀ {old phase : Phase}, a.phase = old →
      old.mayMove phase = true → Takes hash s (s.setPhase i a phase) := by
    intro old phase hPhase hMove
    exact .advance i a _ hAcquire (.refl s.pool) (.move phase (hPhase ▸ hMove)) rfl rfl
  unfold stepAcquire
  split
  · rename_i hPhase
    exact takes_move hAcquire hPhase rfl (.generation a.call.key _ s.pool)
  · rename_i hPhase
    unfold stepMetadata
    split
    · exact .advance i a _ hAcquire (.refl s.pool)
        (.read _ _ _ (congrArg Phase.settled hPhase)) rfl rfl
    · exact hStay hPhase rfl
    · split_ifs
      · exact hStay hPhase rfl
      · exact hStay hPhase rfl
  · rename_i hPhase
    exact takes_stepLookup hAcquire hPhase _ _
  · rename_i hPhase
    exact takes_stepRetireGone hAcquire hPhase _
  · rename_i hPhase
    exact takes_move hAcquire hPhase rfl (.retirePoolEntry a.call.key 0 true _ s.pool)
  · rename_i hPhase
    exact takes_move hAcquire hPhase rfl (.retireEntryWithKey a.call.key _ _ s.pool)
  · rename_i hPhase
    exact .advance i a _ hAcquire (.refl s.pool) (.fetch _ _ _ hPhase rfl) rfl rfl
  · rename_i hPhase
    exact hStay hPhase rfl
  · rename_i hPhase
    exact hStay hPhase rfl
  · rename_i hPhase
    exact hStay hPhase rfl
  · rename_i hPhase
    exact .store i a _ _ _ hAcquire hPhase
  · exact .stay (.refl s.pool) rfl rfl

theorem takes_step (hash : Text → Text) (s : PoolSystem) (e : PoolEvent) :
    Takes hash s (s.step hash e) := by
  cases e with
  | acquire call => exact .enter call
  | advance i e =>
    unfold step
    dsimp only
    cases hAcquire : s.acquires[i]? with
    | none => exact .stay (.refl s.pool) rfl rfl
    | some a => exact takes_stepAcquire hAcquire e
  | release i =>
    unfold step
    dsimp only
    cases s.releases[i]? with
    | none => exact .stay (.refl s.pool) rfl rfl
    | some rel =>
      dsimp only
      unfold stepRelease
      split_ifs
      · exact .stay (.refl s.pool) rfl rfl
      · exact .stay (.refl s.pool) rfl rfl
      · exact .stay (.release rel.resource s.pool) rfl rfl
  | evictForDelete key now => exact .stay (.evictForDelete key now s.pool) rfl rfl
  | evict key now => exact .stay (.retire key now s.pool) rfl rfl
  | close b =>
    unfold step
    dsimp only
    split_ifs
    · exact .stay (.refl s.pool) rfl rfl
    · exact .stay (.refl s.pool) rfl rfl

end Takes

----
-- Freshness
----

/- A build matches the spec and something that was read. -/
def Matches (hash : Text → Text) (a : Acquire) (build : Build) : Prop :=
  build.specHash = specFingerprint hash a.call ∧ build.versions ∈ a.reads

/- What an acquire holds was read by it, or matches a read. -/
def Fresh (hash : Text → Text) (builds : List Build) (a : Acquire) : Prop :=
  match a.phase with
  | .looking _ _ found => found ∈ a.reads
  | .storing _ _ built => built ∈ a.reads
  | .done b => ∃ build, builds[b]? = some build ∧ Matches hash a build
  | _ => True

/- The key of an entry is the one of a build for some spec. -/
def KeyOf (hash : Text → Text) (builds : List Build) (b : Nat) (key : Text) : Prop :=
  ∃ build spec, builds[b]? = some build ∧ build.specHash = hash spec ∧
    key = poolEntryKey hash build.specHash build.versions

/- What every state of a run satisfies. -/
structure Lawful (hash : Text → Text) (s : PoolSystem) : Prop where
  keys : ∀ b entry, s.pool.heap.lookup b = some entry → KeyOf hash s.builds b entry.key
  fresh : ∀ (i : Nat) a, s.acquires[i]? = some a → Fresh hash s.builds a
  pointed : ∀ key b, s.pool.entries.lookup key = some b → b < s.builds.length
  bounded : s.pool.Bounded
  drawn : ∀ (i : Nat) a generation, s.acquires[i]? = some a →
    a.phase.inFlight = some generation → 0 < generation ∧ generation ≤ s.pool.counter
  builders : ∀ (b : Nat) build, s.builds[b]? = some build →
    ∃ a b', s.acquires[build.builder]? = some a ∧ a.phase = .done b'

variable {hash : Text → Text} {builds : List Build} {a : Acquire}

theorem Fresh.append (hFresh : Fresh hash builds a) (build : Build) :
    Fresh hash (builds ++ [build]) a := by
  unfold Fresh at hFresh ⊢
  split
  · rename_i hPhase
    rw [hPhase] at hFresh
    exact hFresh
  · rename_i hPhase
    rw [hPhase] at hFresh
    exact hFresh
  · rename_i hPhase
    rw [hPhase] at hFresh
    rcases hFresh with ⟨old, hOld, hMatches⟩
    exact ⟨old, List.getElem?_append_left (List.getElem?_eq_some_iff.mp hOld).1 ▸ hOld, hMatches⟩
  · exact True.intro

theorem KeyOf.append {b : Nat} {key : Text} (hKey : KeyOf hash builds b key) (build : Build) :
    KeyOf hash (builds ++ [build]) b key := by
  rcases hKey with ⟨old, spec, hOld, hRest⟩
  exact ⟨old, spec, List.getElem?_append_left (List.getElem?_eq_some_iff.mp hOld).1 ▸ hOld, hRest⟩

/- An entry under the key of a read matches that read. -/
theorem KeyOf.matches (hInj : Function.Injective hash) (hPlain : ∀ s, '\x00' ∉ hash s) {b : Nat}
    {found : List SecretVersion}
    (hKey : KeyOf hash builds b (poolEntryKey hash (specFingerprint hash a.call) found))
    (hRead : found ∈ a.reads) : ∃ build, builds[b]? = some build ∧ Matches hash a build := by
  rcases hKey with ⟨build, spec, hBuild, hSpec, hEq⟩
  rcases poolEntryKey_inj hInj (hPlain a.call.spec)
    (hSpec ▸ hPlain spec) hEq with ⟨hSame, hVersions⟩
  exact ⟨build, hBuild, hSame.symm, hVersions ▸ hRead⟩

theorem lawful_start (hash : Text → Text) : Lawful hash start where
  keys _ _ h := nomatch h
  fresh _ _ h := nomatch h
  pointed _ _ h := nomatch h
  bounded _ _ h := nomatch h
  drawn _ _ _ h := nomatch h
  builders _ _ h := nomatch h

theorem getElem?_set_cases {acquires : List Acquire} {i j : Nat} {a' : Acquire}
    (hLook : (acquires.set i a')[j]? = some a) :
    j = i ∧ a = a' ∨ j ≠ i ∧ acquires[j]? = some a := by
  by_cases hSame : j = i
  · subst hSame
    refine .inl ⟨rfl, ?_⟩
    rcases List.getElem?_eq_some_iff.mp hLook with ⟨hLt, hEq⟩
    rw [List.getElem_set_self] at hEq
    exact hEq.symm
  · rw [List.getElem?_set_ne (Ne.symm hSame)] at hLook
    exact .inr ⟨hSame, hLook⟩

theorem getElem?_concat_cases {α : Type} {xs : List α} {x y : α} {i : Nat}
    (hLook : (xs ++ [x])[i]? = some y) : xs[i]? = some y ∨ i = xs.length ∧ y = x := by
  rcases Nat.lt_trichotomy i xs.length with hLt | hEq | hGt
  · rw [List.getElem?_append_left hLt] at hLook
    exact .inl hLook
  · rw [hEq, List.getElem?_concat_length] at hLook
    cases hLook
    exact .inr ⟨hEq, rfl⟩
  · rw [List.getElem?_append_right hGt.le] at hLook
    have hLen := (List.getElem?_eq_some_iff.mp hLook).1
    rw [List.length_singleton] at hLen
    omega

section Lawful

variable {hash : Text → Text} {s s' : PoolSystem}

/- The parts of the law that only depend on the pool. -/
theorem Lawful.evolve (hLaw : Lawful hash s) (hPool : s.pool.Evolves s'.pool)
    (hBuilds : s'.builds = s.builds)
    (hFresh : ∀ (i : Nat) a, s'.acquires[i]? = some a → Fresh hash s.builds a)
    (hDrawn : ∀ (i : Nat) a generation, s'.acquires[i]? = some a →
      a.phase.inFlight = some generation → 0 < generation ∧ generation ≤ s'.pool.counter)
    (hDone : ∀ (i : Nat) a b, s.acquires[i]? = some a →
      a.phase = .done b → s'.acquires[i]? = some a) : Lawful hash s' where
  keys b entry hHeap := by
    rcases hPool.heap b entry hHeap with ⟨old, hOld, hKey⟩
    rw [hKey, hBuilds]
    exact hLaw.keys b old hOld
  fresh i a hAcquire := hBuilds ▸ hFresh i a hAcquire
  pointed key b hSlot := hBuilds ▸ hLaw.pointed key b (hPool.entries key b hSlot)
  bounded := hPool.bounded hLaw.bounded
  drawn := hDrawn
  builders b build hBuild := by
    rw [hBuilds] at hBuild
    rcases hLaw.builders b build hBuild with ⟨a, b', hA, hPhase⟩
    exact ⟨a, b', hDone _ a b' hA hPhase, hPhase⟩

theorem Lawful.fresh_advance (hInj : Function.Injective hash)
    (hPlain : ∀ s, '\x00' ∉ hash s) (hLaw : Lawful hash s)
    {a a' : Acquire} {p' : Pool} (hFresh : Fresh hash s.builds a)
    (hAdvance : Advance hash s.pool p' a a') : Fresh hash s.builds a' := by
  unfold Fresh at hFresh
  cases hAdvance with
  | move phase hMove =>
    cases phase with
    | looking | storing | done => cases hMove
    | _ => exact True.intro
  | read | fetch => exact List.mem_cons_self
  | hit attempt generation found b entry hPhase hHeap hKey =>
    rw [hPhase] at hFresh
    have hEntry := hLaw.keys b entry hHeap
    rw [hKey] at hEntry
    exact hEntry.matches hInj hPlain hFresh
  | miss attempt readGeneration found generation now hPhase => exact True.intro

theorem Lawful.drawn_advance (hLaw : Lawful hash s) {i : Nat} {a a' : Acquire}
    {p' : Pool} (hAcquire : s.acquires[i]? = some a) (hPool : s.pool.Evolves p')
    (hAdvance : Advance hash s.pool p' a a') {generation : Nat}
    (hFlight : a'.phase.inFlight = some generation) : 0 < generation ∧ generation ≤ p'.counter := by
  cases hAdvance with
  | move phase hMove =>
    cases phase with
    | fetching | storing => cases hMove
    | _ => cases hFlight
  | read | hit => cases hFlight
  | miss attempt readGeneration found generation now hPhase
      hDrawn =>
      cases hFlight
      exact hDrawn hLaw.bounded
  | fetch generation now found hPhase =>
    cases hFlight
    rcases hLaw.drawn i a generation hAcquire (congrArg Phase.inFlight hPhase) with ⟨hPos, hLe⟩
    exact ⟨hPos, hLe.trans hPool.counter⟩

end Lawful

/- The entry that a store offers to the pool. -/
def builtEntry (hash : Text → Text) (call : AcquireCall) (now : Int)
    (built : List SecretVersion) : PooledEntry where
  specHash := specFingerprint hash call
  key := poolEntryKey hash (specFingerprint hash call) built
  secrets := built
  lastUsed := now
  holders := 0
  retired := false

/- The store, as the acquires and the builds see it. -/
theorem stepStore_spec (hash : Text → Text) (s : PoolSystem) (i : Nat)
    (a : Acquire) (generation : Nat) (now : Int) (built : List SecretVersion) :
    let s' := s.stepStore hash i a generation now built
    ∃ stored, Pool.Stores a.call.key generation s.builds.length
        (builtEntry hash a.call now built) s.pool s'.pool stored ∧
      s'.builds = s.builds ++ [⟨specFingerprint hash a.call, built, i⟩] ∧
      s'.acquires = s.acquires.set i
        { a with phase := .done (stored.given s.builds.length).resource } := by
  have hStore := Pool.stores_storePooledBackend a.call.key
    generation s.builds.length (builtEntry hash a.call now built) s.pool
  unfold stepStore
  unfold builtEntry at hStore ⊢
  dsimp only
  generalize storePooledBackend a.call.key generation s.builds.length _ s.pool = result at hStore ⊢
  rcases result with ⟨p, stored⟩
  refine ⟨stored, ?_⟩
  cases stored with
  | pooled | shared | owned => exact ⟨hStore, rfl, rfl⟩

section Steps

variable {hash : Text → Text} {s : PoolSystem}

theorem Lawful.enter (hLaw : Lawful hash s) (call : AcquireCall) :
    Lawful hash (s.step hash (.acquire call)) := by
  have hOld : ∀ (i : Nat) a,
      (s.step hash (.acquire call)).acquires[i]? = some a →
        s.acquires[i]? = some a ∨ a = ⟨call, .observing 1 [], []⟩ := by
    intro i a hLook
    rcases getElem?_concat_cases hLook with hOld | ⟨-, hNew⟩
    · exact .inl hOld
    · exact .inr hNew
  refine hLaw.evolve (.refl s.pool) rfl ?_ ?_ ?_
  · intro i a hLook
    rcases hOld i a hLook with hBefore | hNew
    · exact hLaw.fresh i a hBefore
    · rw [hNew]
      exact True.intro
  · intro i a generation hLook hFlight
    rcases hOld i a hLook with hBefore | hNew
    · exact hLaw.drawn i a generation hBefore hFlight
    · rw [hNew] at hFlight
      cases hFlight
  · intro i a b hLook hDone
    exact List.getElem?_append_left (List.getElem?_eq_some_iff.mp hLook).1 ▸ hLook

variable (hInj : Function.Injective hash) (hPlain : ∀ s, '\x00' ∉ hash s)

include hInj hPlain

theorem Lawful.store (hLaw : Lawful hash s) {i : Nat} {a : Acquire} {generation : Nat} {now : Int}
    {built : List SecretVersion} (hAcquire : s.acquires[i]? = some a)
    (hPhase : a.phase = .storing generation now built) :
    Lawful hash (s.stepStore hash i a generation now built) := by
  rcases stepStore_spec hash s i a generation now built with ⟨stored, hStore, hBuilds, hAcquires⟩
  have hRead : built ∈ a.reads := by
    have hFresh := hLaw.fresh i a hAcquire
    unfold Fresh at hFresh
    rw [hPhase] at hFresh
    exact hFresh
  have hNew : KeyOf hash (s.builds ++ [⟨specFingerprint hash a.call, built, i⟩])
      s.builds.length (builtEntry hash a.call now built).key :=
    ⟨_, a.call.spec, List.getElem?_concat_length, rfl, rfl⟩
  have hI : i < s.acquires.length := (List.getElem?_eq_some_iff.mp hAcquire).1
  constructor
  · intro b entry hHeap
    rw [hBuilds]
    rcases hStore.heap b entry hHeap with ⟨hNext, hKey⟩ | ⟨old, hOld, hKey⟩
    · rw [hNext, hKey]
      exact hNew
    · rw [hKey]
      exact (hLaw.keys b old hOld).append _
  · intro j a' hLook
    rw [hAcquires] at hLook
    rw [hBuilds]
    rcases getElem?_set_cases hLook with ⟨-, hA⟩ | ⟨-, hOther⟩
    · -- the build itself, or the one that was there first
      rw [hA]
      have hKey : KeyOf hash (s.builds ++ [⟨specFingerprint hash a.call, built, i⟩])
          (stored.given s.builds.length).resource
          (builtEntry hash a.call now built).key := by
        rcases hStore.given with hNext | ⟨old, hOld, hKey⟩
        · rw [hNext]
          exact hNew
        · rw [← hKey]
          exact (hLaw.keys _ old hOld).append _
      exact hKey.matches hInj hPlain hRead
    · exact (hLaw.fresh j a' hOther).append _
  · intro key b hSlot
    rw [hBuilds, List.length_append]
    rcases hStore.entries key b hSlot with hOld | ⟨hNext, -⟩
    · exact Nat.lt_succ_of_lt (hLaw.pointed key b hOld)
    · rw [hNext]
      exact Nat.lt_succ_self _
  · exact hStore.bounded hLaw.bounded
  · intro j a' g hLook hFlight
    rw [hAcquires] at hLook
    rcases getElem?_set_cases hLook with ⟨-, hA⟩ | ⟨-, hOther⟩
    · rw [hA] at hFlight
      cases hFlight
    · rcases hLaw.drawn j a' g hOther hFlight with ⟨hPos, hLe⟩
      exact ⟨hPos, hLe.trans hStore.counter⟩
  · intro b build hBuild
    rw [hBuilds] at hBuild
    rw [hAcquires]
    rcases getElem?_concat_cases hBuild with hOld | ⟨-, hLast⟩
    · rcases hLaw.builders b build hOld with ⟨a', b', hA, hDone⟩
      have hNe : i ≠ build.builder := by
        intro hSame
        rw [← hSame, hAcquire] at hA
        cases hA
        rw [hPhase] at hDone
        cases hDone
      exact ⟨a', b', by rw [List.getElem?_set_ne hNe]; exact hA, hDone⟩
    · rw [hLast]
      exact ⟨_, _, List.getElem?_set_self hI, rfl⟩

theorem Lawful.step (hLaw : Lawful hash s) (e : PoolEvent) : Lawful hash (s.step hash e) := by
  have hTakes := takes_step hash s e
  generalize s.step hash e = s' at hTakes ⊢
  cases hTakes with
  | stay hPool hAcquires hBuilds =>
    refine hLaw.evolve hPool hBuilds ?_ ?_ ?_
    · rw [hAcquires]
      exact hLaw.fresh
    · rw [hAcquires]
      intro i a generation hLook hFlight
      rcases hLaw.drawn i a generation hLook hFlight with ⟨hPos, hLe⟩
      exact ⟨hPos, hLe.trans hPool.counter⟩
    · rw [hAcquires]
      exact fun _ _ _ hLook _ => hLook
  | enter call => exact hLaw.enter call
  | advance i a a' hAcquire hPool hAdvance hAcquires hBuilds =>
    refine hLaw.evolve hPool hBuilds ?_ ?_ ?_
    · intro j c hLook
      rw [hAcquires] at hLook
      rcases getElem?_set_cases hLook with ⟨-, hC⟩ | ⟨-, hOther⟩
      · rw [hC]
        exact hLaw.fresh_advance hInj hPlain (hLaw.fresh i a hAcquire) hAdvance
      · exact hLaw.fresh j c hOther
    · intro j c generation hLook hFlight
      rw [hAcquires] at hLook
      rcases getElem?_set_cases hLook with ⟨-, hC⟩ | ⟨-, hOther⟩
      · rw [hC] at hFlight
        exact hLaw.drawn_advance hAcquire hPool hAdvance hFlight
      · rcases hLaw.drawn j c generation hOther hFlight with ⟨hPos, hLe⟩
        exact ⟨hPos, hLe.trans hPool.counter⟩
    · intro j c b hLook hDone
      have hNe : i ≠ j := by
        intro hSame
        rw [← hSame, hAcquire] at hLook
        cases hLook
        exact hAdvance.not_done b hDone
      rw [hAcquires, List.getElem?_set_ne hNe]
      exact hLook
  | store i a generation now built hAcquire hPhase => exact hLaw.store hInj hPlain hAcquire hPhase

theorem lawful_exec (events : List PoolEvent) :
    Lawful hash (Run.exec (step hash) start events) := by
  have hStep : ∀ (s : PoolSystem) e, Lawful hash s → Lawful hash (s.step hash e) :=
    fun _ e hLaw => hLaw.step hInj hPlain e
  exact Run.exec_preserves hStep (lawful_start hash) events

end Steps

----
-- The Fence
----

/- The acquire is between its lookup and its store. -/
def InFlight (s : PoolSystem) (i : Nat) (key : Text) : Prop :=
  ∃ a generation, s.acquires[i]? = some a ∧ a.call.key = key ∧ a.phase.inFlight = some generation

/- The event retires the key, by a delete or otherwise. -/
def Retires (hash : Text → Text) (s : PoolSystem) (e : PoolEvent) (key : Text) : Prop :=
  s.pool.retirements.count key < (s.step hash e).pool.retirements.count key

/- What the acquire built, or will build, stays out. -/
structure Fenced (s : PoolSystem) (i : Nat) : Prop where
  behind : ∃ a, s.acquires[i]? = some a ∧ a.phase.settled = true ∧
    ∀ generation, a.phase.inFlight = some generation →
      s.pool.generationValue a.call.key ≠ generation
  out : ∀ (b : Nat) build, s.builds[b]? = some build → build.builder = i → ¬ s.Pooled b

section Fence

variable {hash : Text → Text} {s s' : PoolSystem} {i : Nat} {generation : Nat}

/- Below the counter, no section gives a generation back. -/
theorem ne_of_evolves {p p' : Pool} (hPool : p.Evolves p') {key : Text} (hPos : 0 < generation)
    (hLe : generation ≤ p.counter) (hNe : p.generationValue key ≠ generation) :
    p'.generationValue key ≠ generation := by
  rcases hPool.value key with hZero | hNew | ⟨hSame, -⟩
  · omega
  · omega
  · rw [hSame]
    exact hNe

theorem Fenced.evolve (hLaw : Lawful hash s) (hFenced : s.Fenced i)
    (hPool : s.pool.Evolves s'.pool) (hBuilds : s'.builds = s.builds)
    (hSame : ∀ a, s.acquires[i]? = some a → s'.acquires[i]? = some a) : s'.Fenced i := by
  constructor
  · rcases hFenced.behind with ⟨a, hA, hSettled, hNe⟩
    refine ⟨a, hSame a hA, hSettled, ?_⟩
    intro generation hFlight
    rcases hLaw.drawn i a generation hA hFlight with ⟨hPos, hLe⟩
    exact ne_of_evolves hPool hPos hLe (hNe generation hFlight)
  · intro b build hBuild hBuilder hPooled
    rw [hBuilds] at hBuild
    rcases hPooled with ⟨key, hSlot⟩
    exact hFenced.out b build hBuild hBuilder ⟨key, hPool.entries key b hSlot⟩

theorem Fenced.advance (hFenced : s.Fenced i) {a a' : Acquire} (hAcquire : s.acquires[i]? = some a)
    (hPool : s.pool.Evolves s'.pool) (hAdvance : Advance hash s.pool s'.pool a a')
    (hAcquires : s'.acquires = s.acquires.set i a') (hBuilds : s'.builds = s.builds) :
    s'.Fenced i := by
  have hI := (List.getElem?_eq_some_iff.mp hAcquire).1
  rcases hFenced.behind with ⟨c, hC, hSettled, hNe⟩
  rw [hAcquire] at hC
  cases hC
  constructor
  · refine ⟨a', ?_, ?_⟩
    · rw [hAcquires]
      exact List.getElem?_set_self hI
    rcases hAdvance.of_settled hSettled with ⟨hSettled', hCall, hNone | ⟨hSame, hKept⟩⟩
    · refine ⟨hSettled', fun generation hFlight => ?_⟩
      rw [hNone] at hFlight
      cases hFlight
    · refine ⟨hSettled', fun generation hFlight => ?_⟩
      rw [hSame, hCall]
      exact hNe generation (hKept ▸ hFlight)
  · intro b build hBuild hBuilder hPooled
    rw [hBuilds] at hBuild
    rcases hPooled with ⟨key, hSlot⟩
    exact hFenced.out b build hBuild hBuilder ⟨key, hPool.entries key b hSlot⟩

/- A store, of the acquire itself or of another. -/
theorem Fenced.store (hLaw : Lawful hash s) (hFenced : s.Fenced i) {j : Nat} {c : Acquire}
    {now : Int} {built : List SecretVersion} (hAcquire : s.acquires[j]? = some c)
    (hPhase : c.phase = .storing generation now built) :
    (s.stepStore hash j c generation now built).Fenced i := by
  rcases stepStore_spec hash s j c generation now built with ⟨stored, hStore, hBuilds, hAcquires⟩
  have hJ := (List.getElem?_eq_some_iff.mp hAcquire).1
  rcases hFenced.behind with ⟨a, hA, hSettled, hNe⟩
  constructor
  · rw [hAcquires]
    by_cases hSame : j = i
    · subst hSame
      exact ⟨_, List.getElem?_set_self hJ, rfl, fun _ hFlight => (nomatch hFlight)⟩
    · rw [List.getElem?_set_ne hSame]
      refine ⟨a, hA, hSettled, ?_⟩
      intro g hFlight
      have hOld := hNe g hFlight
      rcases hLaw.drawn i a g hA hFlight with ⟨hPos, hLe⟩
      rcases hStore.value a.call.key with hNew | hKept
      · omega
      · rw [hKept]
        exact hOld
  · intro b build hBuild hBuilder hPooled
    rw [hBuilds] at hBuild
    rcases hPooled with ⟨key, hSlot⟩
    rcases getElem?_concat_cases hBuild with hOld | ⟨hLast, hNew⟩
    · rcases hStore.entries key b hSlot with hBefore | ⟨hNext, -⟩
      · exact hFenced.out b build hOld hBuilder ⟨key, hBefore⟩
      · have hLt := (List.getElem?_eq_some_iff.mp hOld).1
        omega
    · -- the build of the fenced acquire is not taken in
      rw [hNew] at hBuilder
      subst hBuilder
      rw [hAcquire] at hA
      cases hA
      rcases hStore.entries key b hSlot with hBefore | ⟨-, hGeneration⟩
      · have hLt := hLaw.pointed key b hBefore
        omega
      · exact hNe generation (congrArg Phase.inFlight hPhase) hGeneration

theorem Fenced.step (hLaw : Lawful hash s) (hFenced : s.Fenced i) (e : PoolEvent) :
    (s.step hash e).Fenced i := by
  have hTakes := takes_step hash s e
  generalize s.step hash e = s' at hTakes ⊢
  cases hTakes with
  | stay hPool hAcquires hBuilds =>
    exact hFenced.evolve hLaw hPool hBuilds (fun a hA => hAcquires ▸ hA)
  | enter call =>
    refine hFenced.evolve hLaw (.refl s.pool) rfl ?_
    intro a hA
    exact List.getElem?_append_left (List.getElem?_eq_some_iff.mp hA).1 ▸ hA
  | advance j c c' hAcquire hPool hAdvance hAcquires hBuilds =>
    by_cases hSame : j = i
    · subst hSame
      exact hFenced.advance hAcquire hPool hAdvance hAcquires hBuilds
    · refine hFenced.evolve hLaw hPool hBuilds ?_
      intro a hA
      rw [hAcquires, List.getElem?_set_ne hSame]
      exact hA
  | store j c generation now built hAcquire hPhase => exact hFenced.store hLaw hAcquire hPhase

/- Nothing was built yet by an acquire in flight. -/
theorem Lawful.out_of_inFlight (hLaw : Lawful hash s) {a : Acquire}
    (hAcquire : s.acquires[i]? = some a) (hFlight : a.phase.inFlight = some generation) {b : Nat}
    {build : Build} (hBuild : s.builds[b]? = some build) : build.builder ≠ i := by
  intro hBuilder
  rcases hLaw.builders b build hBuild with ⟨c, b', hC, hDone⟩
  rw [hBuilder, hAcquire] at hC
  cases hC
  rw [hDone] at hFlight
  cases hFlight

/- A retire raises the fence. -/
theorem fenced_of_retires (hLaw : Lawful hash s) {key : Text}
    (hFlight : s.InFlight i key) {e : PoolEvent} (hRetires : Retires hash s e key) :
    (s.step hash e).Fenced i := by
  rcases hFlight with ⟨a, generation, hA, hKey, hFlight⟩
  subst hKey
  rcases hLaw.drawn i a generation hA hFlight with ⟨hPos, hLe⟩
  unfold Retires at hRetires
  have hTakes := takes_step hash s e
  generalize s.step hash e = s' at hTakes hRetires ⊢
  -- the key has lost its generation, or has a new one
  have hNe : ∀ {p' : Pool}, s.pool.Evolves p' →
      s.pool.retirements.count a.call.key < p'.retirements.count a.call.key →
        p'.generationValue a.call.key ≠ generation := by
    intro p' hPool hCount
    rcases hPool.value a.call.key with hZero | hNew | ⟨-, hSame⟩
    · omega
    · omega
    · omega
  have hSettled : a.phase.settled = true := by
    cases hPhase : a.phase with
    | fetching | storing => rfl
    | _ =>
      rw [hPhase] at hFlight
      cases hFlight
  have hOut : s'.builds = s.builds →
      ∀ (b : Nat) build, s'.builds[b]? = some build → build.builder = i → ¬ s'.Pooled b := by
    intro hBuilds b build hBuild hBuilder
    rw [hBuilds] at hBuild
    exact absurd hBuilder (hLaw.out_of_inFlight hA hFlight hBuild)
  cases hTakes with
  | stay hPool hAcquires hBuilds =>
    exact ⟨⟨a, hAcquires ▸ hA, hSettled, fun g hG =>
      Option.some.inj (hFlight.symm.trans hG) ▸ hNe hPool hRetires⟩, hOut hBuilds⟩
  | enter call => exact absurd hRetires (Nat.lt_irrefl _)
  | advance j c c' hAcquire hPool hAdvance hAcquires hBuilds =>
    refine ⟨?_, hOut hBuilds⟩
    rw [hAcquires]
    by_cases hSame : j = i
    · -- the acquire itself gave up
      subst hSame
      rw [hAcquire] at hA
      cases hA
      have hJ := (List.getElem?_eq_some_iff.mp hAcquire).1
      refine ⟨c', List.getElem?_set_self hJ, ?_⟩
      rcases hAdvance.of_settled hSettled with ⟨hSettled', -, hNone | ⟨hPoolSame, -⟩⟩
      · refine ⟨hSettled', fun g hG => ?_⟩
        rw [hNone] at hG
        cases hG
      · rw [hPoolSame] at hRetires
        exact absurd hRetires (Nat.lt_irrefl _)
    · rw [List.getElem?_set_ne hSame]
      exact ⟨a, hA, hSettled, fun g hG =>
        Option.some.inj (hFlight.symm.trans hG) ▸ hNe hPool hRetires⟩
  | store j c g now built hAcquire hPhase =>
    -- a store retires nothing
    rcases stepStore_spec hash s j c g now built with ⟨stored, hStore, -, -⟩
    rw [hStore.retirements] at hRetires
    exact absurd hRetires (Nat.lt_irrefl _)

theorem fenced_exec (hInj : Function.Injective hash)
    (hPlain : ∀ s, '\x00' ∉ hash s) (hLaw : Lawful hash s)
    (hFenced : s.Fenced i) (events : List PoolEvent) :
    (Run.exec (step hash) s events).Fenced i := by
  have hStep : ∀ (s : PoolSystem) e,
      (Lawful hash s ∧ s.Fenced i) → Lawful hash (s.step hash e) ∧ (s.step hash e).Fenced i :=
    fun _ e hBoth => ⟨hBoth.1.step hInj hPlain e, hBoth.2.step hBoth.1 e⟩
  exact (Run.exec_preserves hStep ⟨hLaw, hFenced⟩ events).2

end Fence

/-
  In every run: a backend that an acquire returned was built for its spec and for Secrets that it
  read itself; and when the key of an acquire in flight is retired, nothing that it builds is pooled
  later on.
-/
theorem acquires_fresh_and_fenced {hash : Text → Text} (hInj : Function.Injective hash)
    (hPlain : ∀ s, '\x00' ∉ hash s) (events : List PoolEvent) :
    let s := Run.exec (step hash) start events
    (∀ (i : Nat) a b, s.acquires[i]? = some a → a.phase = .done b →
        ∃ build, s.builds[b]? = some build ∧ build.specHash = specFingerprint hash a.call ∧
          build.versions ∈ a.reads) ∧
    (∀ before e after, events = before ++ e :: after → ∀ i key,
        (Run.exec (step hash) start before).InFlight i key →
        Retires hash (Run.exec (step hash) start before) e key →
        ∀ (b : Nat) build, s.builds[b]? = some build → build.builder = i → ¬ s.Pooled b) := by
  constructor
  · intro i a b hAcquire hDone
    have hFresh := (lawful_exec hInj hPlain events).fresh i a hAcquire
    unfold Fresh at hFresh
    rw [hDone] at hFresh
    exact hFresh
  · intro before e after hEvents i key hFlight hRetires
    have hLaw := lawful_exec hInj hPlain before
    have hFenced := fenced_exec hInj hPlain (hLaw.step hInj hPlain e)
      (fenced_of_retires hLaw hFlight hRetires) after
    rw [hEvents, Run.exec_append, Run.exec_cons]
    exact hFenced.out

/- An injective stand-in for the hash, without NULs. -/
def escapeNul : Text → Text := Text.escape '\x00'

/- The build of a first backend has begun. -/
def firstBuild : List PoolEvent :=
  [.acquire ⟨['a'], ['x']⟩, .advance 0 (.generation 0), .advance 0 (.metadata (.versions [])),
    .advance 0 (.lookup 0 [])]

/- Its sink is deleted before it is stored. -/
theorem deleted_in_flight_stays_out :
    let s := Run.exec (step escapeNul) start (firstBuild ++ .evictForDelete ['a'] 1 ::
        [.advance 0 (.fetch (.versions [])), .advance 0 .store])
    s.builds.length = 1 ∧ ¬ s.Pooled 0 := by
  have hFenced := (acquires_fresh_and_fenced (Text.escape_injective _)
    (Text.notMem_escape (by decide) (by decide)) _).2 firstBuild (.evictForDelete ['a'] 1)
    [.advance 0 (.fetch (.versions [])), .advance 0 .store] rfl
    0 ['a'] ⟨_, 1, rfl, rfl, rfl⟩ (by unfold Retires; decide)
  exact ⟨rfl, hFenced 0 ⟨_, _, 0⟩ rfl rfl⟩

end PoolSystem

end Sink
end Kollect
