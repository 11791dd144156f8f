import Kollect.Foundation.Custody
import Kollect.Foundation.Run
import Kollect.Foundation.Text

/-
  The pool of sink backends (`sink/backend_pool.go`, `sink/secret_refs.go`).

  An acquire reads the metadata of the Secrets of its sink and looks the pool up. On a miss it reads
  the Secrets in full, builds a backend and stores it, if the key of the sink was not retired in
  between. An entry is retired when a read shows a change, when its sink is deleted, or when it was
  idle for too long; it is closed by whoever lets go of it last.

  Every section under the mutex is one step. A close that a section decides is run later, as a step
  of its own.

  Key theorems include:
    * `PoolSystem.moves_step`
    * `PoolSystem.backends_closed_once`
-/

namespace Kollect
namespace Sink

----
-- The Pool
----

/- Twice the largest export interval, in nanoseconds. -/
def backendPoolTTL : Int := 2 * (24 * 3600 * 1000000000)

/- The identity of a Secret as it was read. An object of the API server has no NUL in it. -/
structure SecretVersion where
  namespace_ : Text
  name : Text
  uid : Text
  resourceVersion : Text
  plain : ∀ part ∈ [namespace_, name, uid, resourceVersion], '\x00' ∉ part

def SecretVersion.parts (v : SecretVersion) : List Text :=
  [v.namespace_, v.name, v.uid, v.resourceVersion]

variable (hash : Text → Text)

/- The spec hash, and each part behind a NUL. -/
def poolEntryKey (specHash : Text) (versions : List SecretVersion) : Text :=
  hash (specHash ++ (versions.flatMap SecretVersion.parts).flatMap (List.cons '\x00'))

/- A pooled backend; the pool points to it by its number. -/
structure PooledEntry where
  specHash : Text
  key : Text
  secrets : List SecretVersion
  lastUsed : Int
  holders : Nat
  retired : Bool

/- The store fence of a key. -/
structure PoolGeneration where
  value : Nat
  changed : Int

/-
  The maps of the pool. `retirements` is the history of the keys that were retired; no function
  reads it.
-/
structure Pool where
  entries : GoMap Text Nat
  heap : GoMap Nat PooledEntry
  tombstones : GoMap Text Int
  generations : GoMap Text PoolGeneration
  counter : Nat
  retirements : List Text

namespace Pool

def empty : Pool := ⟨∅, ∅, ∅, ∅, 0, []⟩

def entryOf (p : Pool) (key : Text) : Option (Nat × PooledEntry) :=
  match p.entries.lookup key with
  | none => none
  | some b => (p.heap.lookup b).map (Prod.mk b)

/- The generation of a key; a key without one reads as zero. -/
def generationValue (p : Pool) (key : Text) : Nat :=
  match p.generations.lookup key with
  | none => 0
  | some generation => generation.value

def setEntry (p : Pool) (b : Nat) (entry : PooledEntry) : Pool :=
  { p with heap := p.heap.insert b entry }

end Pool

def bumpGenerationLocked (key : Text) (now : Int) (p : Pool) : Pool :=
  { p with
    counter := p.counter + 1
    generations := p.generations.insert key ⟨p.counter + 1, now⟩ }

/- A key without a generation gets a fresh one. -/
def generationLocked (key : Text) (now : Int) (p : Pool) : Pool × Nat :=
  match p.generations.lookup key with
  | some generation => (p, generation.value)
  | none => (bumpGenerationLocked key now p, p.counter + 1)

/- The backend to close now, when nobody holds it. -/
def retireLocked (key : Text) (now : Int) (p : Pool) : Pool × Option Nat :=
  let p := { bumpGenerationLocked key now p with retirements := key :: p.retirements }
  match p.entryOf key with
  | none => (p, none)
  | some (b, entry) =>
    ({ p with
       entries := p.entries.erase key
       heap := p.heap.insert b { entry with retired := true } },
      if 0 < entry.holders then none else some b)

def holdLocked (b : Nat) (entry : PooledEntry) (p : Pool) : Pool :=
  p.setEntry b { entry with holders := entry.holders + 1 }

/- What a release does under the mutex; it may be the last. -/
def releaseLocked (b : Nat) (p : Pool) : Pool × Bool :=
  match p.heap.lookup b with
  | none => (p, false)
  | some entry =>
    (p.setEntry b { entry with holders := entry.holders - 1 },
      entry.retired && entry.holders - 1 == 0)

def pruneExpiredTombstonesLocked (now : Int) (p : Pool) : Pool :=
  { p with
    tombstones := p.tombstones.filterKeys fun key =>
      match p.tombstones.lookup key with
      | none => false
      | some tombstoned => decide (now - tombstoned ≤ backendPoolTTL)
    generations := p.generations.filterKeys fun key =>
      match p.generations.lookup key with
      | none => false
      | some generation =>
        (p.entries.lookup key).isSome ||
          decide (now - generation.changed ≤ backendPoolTTL) }

/- One entry of the walk; a held one is in use. -/
def pruneEntry (now : Int) (walk : Pool × List Nat) (key : Text) : Pool × List Nat :=
  match walk.1.entryOf key with
  | none => walk
  | some (_, entry) =>
    if entry.holders = 0 ∧ backendPoolTTL < now - entry.lastUsed then
      let (p, close) := retireLocked key now walk.1
      (p, walk.2 ++ close.toList)
    else walk

/- The map is walked in an order of its own. -/
def pruneStaleEntriesLocked (order : List Text) (now : Int) (p : Pool) : Pool × List Nat :=
  let (p, stale) := order.foldl (pruneEntry now) (p, [])
  (pruneExpiredTombstonesLocked now p, stale)

----
-- Sections Of The Pool
----

/- A hit, a miss, or the wish to read again. -/
inductive Found where
  | hit (b : Nat)
  | reread (staleKey : Text)
  | miss (previous : Option (List SecretVersion))

structure PoolLookup where
  found : Found
  generation : Nat
  now : Int

/- The Secrets of an entry of the same spec, for the log. -/
def previousSecrets (specHash : Text) (entry : PooledEntry) : Option (List SecretVersion) :=
  if entry.specHash = specHash then some entry.secrets else none

/- The entry that a key has, against what was read. -/
def lookupEntry (key specHash entryKey : Text) (readGeneration : Nat)
    (force : Bool) (now : Int) (p : Pool) : Pool × Found × Option Nat :=
  match p.entryOf key with
  | none => (p, .miss none, none)
  | some (b, entry) =>
    let previous := previousSecrets specHash entry
    if entry.key = entryKey then (holdLocked b { entry with lastUsed := now } p, .hit b, none)
    else if force then
      let (p, close) := retireLocked key now p
      (p, .miss previous, close)
    else
      let (p, generation) := generationLocked key now p
      if generation ≠ readGeneration then (p, .reread entry.key, none)
      else
        let (p, close) := retireLocked key now p
        (p, .miss previous, close)

def lookupOrRetire (key specHash entryKey : Text) (readGeneration : Nat)
    (force : Bool) (now : Int) (order : List Text) (p : Pool) : Pool × PoolLookup × List Nat :=
  let (p, stale) := pruneStaleEntriesLocked order now p
  let (p, found, close) := lookupEntry key specHash entryKey readGeneration force now p
  let (p, generation) := generationLocked key now p
  (p, ⟨found, generation, now⟩, stale ++ close.toList)

/-
  Retire what a key has, unless it was stored after the read began; then its entry key is returned.
-/
def retirePoolEntry (key : Text) (readGeneration : Nat) (force : Bool)
    (now : Int) (p : Pool) : Pool × Option Text × Option Nat :=
  let retire := fun p : Pool =>
    let (p, close) := retireLocked key now p
    (p, none, close)
  match p.entryOf key with
  | none => retire p
  | some (_, entry) =>
    if force then retire p
    else
      let (p, generation) := generationLocked key now p
      if generation ≠ readGeneration then (p, some entry.key, none)
      else retire p

def retireEntryWithKey (key entryKey : Text) (now : Int) (p : Pool) : Pool × Option Nat :=
  match p.entryOf key with
  | none => (p, none)
  | some (_, entry) =>
    if entry.key = entryKey then retireLocked key now p
    else (p, none)

def evictPoolKeyForDelete (key : Text) (now : Int) (p : Pool) : Pool × Option Nat :=
  let (p, close) := retireLocked key now p
  (pruneExpiredTombstonesLocked now { p with tombstones := p.tombstones.insert key now }, close)

/- What becomes of a build. -/
inductive Stored where
  | pooled
  | shared (b : Nat)
  | owned
deriving DecidableEq, Repr

/- The store of the backend with the number `next`. -/
def storePooledBackend (key : Text) (generation : Nat) (next : Nat)
    (entry : PooledEntry) (p : Pool) : Pool × Stored :=
  if (p.tombstones.lookup key).isSome then (p, .owned)
  else
    match p.entryOf key with
    | some (b, old) =>
      if old.key = entry.key then
        (holdLocked b { old with lastUsed := entry.lastUsed } p, .shared b)
      else (p, .owned)
    | none =>
      if p.generationValue key = generation then
        (bumpGenerationLocked key entry.lastUsed
          { p with
            entries := p.entries.insert key next
            heap := p.heap.insert next { entry with holders := 1 } }, .pooled)
      else (p, .owned)

----
-- Acquires
----

/- A sink, with its spec as it is hashed. -/
structure AcquireCall where
  key : Text
  spec : Text

def specFingerprint (call : AcquireCall) : Text := hash call.spec

/-
  A read of the referenced Secrets. It is `gone` when it, or the check of the CA Secret behind a
  failed read, found a Secret missing or empty.
-/
inductive ReadResult where
  | versions (found : List SecretVersion)
  | gone
  | failed

def poolReadAttempts : Nat := 2

/- Where an acquire is. -/
inductive Phase where
  | observing (attempt : Nat) (staleKey : Text)
  | reading (attempt : Nat) (staleKey : Text) (generation : Nat)
  | looking (attempt : Nat) (generation : Nat) (found : List SecretVersion)
  | observedGone (attempt : Nat) (generation : Nat)
  | retiringStale (staleKey : Text)
  | fetching (generation : Nat) (now : Int)
  | fetchedGone
  | storing (generation : Nat) (now : Int) (built : List SecretVersion)
  | done (b : Nat)
  | failed

/- An acquire, with what it has read so far. -/
structure Acquire where
  call : AcquireCall
  phase : Phase
  reads : List (List SecretVersion)

/- What a backend was built for, and the acquire that built it. -/
structure Build where
  specHash : Text
  versions : List SecretVersion
  builder : Nat

/-
  The pool, the acquires, the releases they were given, the backends that were built, and their
  closes.
-/
structure PoolSystem where
  pool : Pool
  acquires : List Acquire
  releases : List Custody.Release
  builds : List Build
  closing : List Nat
  closed : List Nat

/- A step of an acquire, with what it is answered. -/
inductive AcquireEvent where
  | generation (now : Int)
  | metadata (result : ReadResult)
  | lookup (now : Int) (order : List Text)
  | retireGone (now : Int)
  | retireStale (now : Int)
  | fetch (result : ReadResult)
  | buildFailed
  | store

inductive PoolEvent where
  | acquire (call : AcquireCall)
  | advance (i : Nat) (e : AcquireEvent)
  | release (i : Nat)
  | evictForDelete (key : Text) (now : Int)
  | evict (key : Text) (now : Int)
  | close (b : Nat)

namespace PoolSystem

def start : PoolSystem := ⟨.empty, [], [], [], [], []⟩

variable (s : PoolSystem) (i : Nat) (a : Acquire)

def setPhase (phase : Phase) : PoolSystem :=
  { s with acquires := s.acquires.set i { a with phase := phase } }

/- A read that gave versions is remembered. -/
def readVersions (phase : Phase) (found : List SecretVersion) : PoolSystem :=
  { s with acquires := s.acquires.set i { a with phase := phase, reads := found :: a.reads } }

/- The pool after a section, and the closes it decided. -/
def withPool (s : PoolSystem) (p : Pool) (closes : List Nat) : PoolSystem :=
  { s with pool := p, closing := closes ++ s.closing }

def give (s : PoolSystem) (b : Nat) (owning : Bool) : PoolSystem :=
  { s with releases := s.releases ++ [⟨b, owning, false⟩] }

def stepMetadata (attempt : Nat) (staleKey : Text) (generation : Nat) : ReadResult → PoolSystem
  | .versions found => s.readVersions i a (.looking attempt generation found) found
  | .gone => s.setPhase i a (.observedGone attempt generation)
  | .failed =>
    if staleKey = [] then s.setPhase i a .failed
    else s.setPhase i a (.retiringStale staleKey)

/- After the lookup: the hit, another read, or a build. -/
def stepLookup (attempt : Nat) (generation : Nat)
    (found : List SecretVersion) (now : Int) (order : List Text) : PoolSystem :=
  let specHash := specFingerprint hash a.call
  let (p, look, closes) := lookupOrRetire a.call.key specHash
      (poolEntryKey hash specHash found) generation
      (decide (poolReadAttempts ≤ attempt)) now order s.pool
  let s := s.withPool p closes
  match look.found with
  | .hit b => (s.give b false).setPhase i a (.done b)
  | .reread staleKey => s.setPhase i a (.observing (attempt + 1) staleKey)
  | .miss _ => s.setPhase i a (.fetching look.generation look.now)

def stepRetireGone (attempt : Nat) (generation : Nat) (now : Int) : PoolSystem :=
  let (p, entryKey, close) :=
    retirePoolEntry a.call.key generation (decide (poolReadAttempts ≤ attempt)) now s.pool
  let s := s.withPool p close.toList
  match entryKey with
  | none => s.setPhase i a .failed
  | some staleKey => s.setPhase i a (.observing (attempt + 1) staleKey)

/- The backend is built and goes into the section at once. -/
def stepStore (generation : Nat) (now : Int) (built : List SecretVersion) : PoolSystem :=
  let specHash := specFingerprint hash a.call
  let next := s.builds.length
  let (p, stored) :=
    storePooledBackend a.call.key generation next
      { specHash := specHash
        key := poolEntryKey hash specHash built
        secrets := built
        lastUsed := now
        holders := 0
        retired := false }
      s.pool
  let s := { s with builds := s.builds ++ [Build.mk specHash built i] }
  match stored with
  | .pooled => ((s.withPool p []).give next false).setPhase i a (.done next)
  | .shared b => ((s.withPool p [next]).give b false).setPhase i a (.done b)
  | .owned => ((s.withPool p []).give next true).setPhase i a (.done next)

/- A release function; a second call does nothing. -/
def stepRelease (s : PoolSystem) (i : Nat) (rel : Custody.Release) : PoolSystem :=
  if rel.done then s
  else
    let s := { s with releases := s.releases.set i { rel with done := true } }
    if rel.owning then s.withPool s.pool [rel.resource]
    else
      let (p, drained) := releaseLocked rel.resource s.pool
      s.withPool p (if drained then [rel.resource] else [])

def stepAcquire (e : AcquireEvent) : PoolSystem :=
  match e, a.phase with
  | .generation now, .observing attempt staleKey =>
    let (p, generation) := generationLocked a.call.key now s.pool
    (s.withPool p []).setPhase i a (.reading attempt staleKey generation)
  | .metadata result, .reading attempt staleKey generation =>
    s.stepMetadata i a attempt staleKey generation result
  | .lookup now order, .looking attempt generation found =>
    s.stepLookup hash i a attempt generation found now order
  | .retireGone now, .observedGone attempt generation => s.stepRetireGone i a attempt generation now
  | .retireGone now, .fetchedGone =>
    -- what is pooled now is retired, whatever was read before
    let (p, _, close) := retirePoolEntry a.call.key 0 true now s.pool
    (s.withPool p close.toList).setPhase i a .failed
  | .retireStale now, .retiringStale staleKey =>
    let (p, close) := retireEntryWithKey a.call.key staleKey now s.pool
    (s.withPool p close.toList).setPhase i a .failed
  | .fetch (.versions found), .fetching generation now =>
    s.readVersions i a (.storing generation now found) found
  | .fetch .gone, .fetching _ _ => s.setPhase i a .fetchedGone
  | .fetch .failed, .fetching _ _ => s.setPhase i a .failed
  | .buildFailed, .storing _ _ _ => s.setPhase i a .failed
  | .store, .storing generation now built => s.stepStore hash i a generation now built
  | _, _ => s

def step (s : PoolSystem) : PoolEvent → PoolSystem
  | .acquire call => { s with acquires := s.acquires ++ [Acquire.mk call (.observing 1 []) []] }
  | .advance i e =>
    match s.acquires[i]? with
    | none => s
    | some a => s.stepAcquire hash i a e
  | .release i =>
    match s.releases[i]? with
    | none => s
    | some rel => s.stepRelease i rel
  | .evictForDelete key now =>
    let (p, close) := evictPoolKeyForDelete key now s.pool
    s.withPool p close.toList
  | .evict key now =>
    let (p, close) := retireLocked key now s.pool
    s.withPool p close.toList
  | .close b =>
    if b ∈ s.closing then
      { s with
        closing := s.closing.erase b
        closed := b :: s.closed }
    else s

end PoolSystem

----
-- The Accounts Of The Pool
----

/- The pool and its surroundings as shared resources. -/
def books (p : Pool) (releases : List Custody.Release) (made : Nat)
    (closing closed : List Nat) : Custody.Accounts Text where
  slots key := p.entries.lookup key
  cells b := (p.heap.lookup b).map fun entry => ⟨entry.holders, entry.retired⟩
  releases := releases
  made := made
  closing := closing
  closed := closed

/- One account after another. -/
abbrev Leads := Relation.ReflTransGen (Custody.Move (K := Text))

section Books

variable {p : Pool} {releases : List Custody.Release} {made : Nat} {closing closed : List Nat}
variable {key : Text} {b : Nat} {entry : PooledEntry}

theorem entryOf_eq_some (hEntry : p.entryOf key = some (b, entry)) :
    p.entries.lookup key = some b ∧ p.heap.lookup b = some entry := by
  unfold Pool.entryOf at hEntry
  cases hSlot : p.entries.lookup key with
  | none =>
    rw [hSlot] at hEntry
    cases hEntry
  | some b' =>
    rw [hSlot] at hEntry
    rcases Option.map_eq_some_iff.mp hEntry with ⟨entry', hHeap, hPair⟩
    rcases Prod.mk.inj hPair with ⟨hB, hE⟩
    rw [← hB, ← hE]
    exact ⟨rfl, hHeap⟩

theorem entries_of_entryOf_none (hSound : Custody.Sound (books p releases made closing closed))
    (hEntry : p.entryOf key = none) : p.entries.lookup key = none := by
  cases hSlot : p.entries.lookup key with
  | none => rfl
  | some b =>
    rcases hSound.offers.live key b hSlot with ⟨c, hCell, -⟩
    rcases Option.map_eq_some_iff.mp hCell with ⟨e, hHeap, -⟩
    unfold Pool.entryOf at hEntry
    rw [hSlot] at hEntry
    dsimp only at hEntry
    rw [hHeap] at hEntry
    cases hEntry

theorem books_generation (now : Int) : books (generationLocked key now p).1 releases made closing
        closed = books p releases made closing closed := by
  unfold generationLocked
  cases p.generations.lookup key with
  | none => rfl
  | some generation => rfl

theorem slots_erase : (fun k => (p.entries.erase key).lookup k) =
      Function.update (fun k => p.entries.lookup k) key none := by
  funext k
  rw [GoMap.lookup_erase_ite, Function.update_apply]

theorem slots_insert : (fun k => (p.entries.insert key b).lookup k) =
      Function.update (fun k => p.entries.lookup k) key (some b) := by
  funext k
  rw [GoMap.lookup_insert_ite, Function.update_apply]

theorem cells_insert : (fun b' => ((p.heap.insert b entry).lookup b').map
      fun e => Custody.Cell.mk e.holders e.retired) = Function.update
        (fun b' => (p.heap.lookup b').map fun e => Custody.Cell.mk e.holders e.retired)
        b (some ⟨entry.holders, entry.retired⟩) := by
  funext b'
  rw [GoMap.lookup_insert_ite, Function.update_apply]
  split_ifs
  · rfl
  · rfl

theorem leads_retire (key : Text) (now : Int) (p : Pool) :
    Leads (books p releases made closing closed) (books (retireLocked key now p).1 releases made
        ((retireLocked key now p).2.toList ++ closing) closed) := by
  unfold retireLocked
  dsimp only
  cases hEntry : ({ bumpGenerationLocked key now p with
      retirements := key :: p.retirements } : Pool).entryOf key
    with
  | none => exact .refl
  | some pair =>
    rcases pair with ⟨b, entry⟩
    rcases entryOf_eq_some hEntry with ⟨hSlot, hHeap⟩
    have hCell : (books p releases made closing closed).cells
        b = some ⟨entry.holders, entry.retired⟩ := by
      exact congrArg (Option.map _) hHeap
    refine .single ?_
    have hMove := Custody.Move.retire (s := books p releases made closing closed) hSlot hCell
    convert hMove using 1
    apply Custody.Accounts.ext
    · exact slots_erase
    · exact cells_insert
    · rfl
    · rfl
    · by_cases hHeld : 0 < entry.holders
      · simp [books, Custody.Accounts.retire, Custody.dueClose, hHeld, Nat.ne_of_gt hHeld]
      · simp [books, Custody.Accounts.retire, Custody.dueClose, Nat.eq_zero_of_not_pos hHeld]
    · rfl

theorem leads_retire_generation (key : Text) (now : Int) (p : Pool) :
    let retired := retireLocked key now (generationLocked key now p).1
    Leads (books p releases made closing closed)
      (books retired.1 releases made (retired.2.toList ++ closing) closed) := by
  have hRetire := @leads_retire releases made closing closed key now (generationLocked key now p).1
  rw [books_generation] at hRetire
  exact hRetire

theorem leads_hold (hEntry : p.entryOf key = some (b, entry)) (lastUsed : Int) :
    Leads (books p releases made closing closed)
      (books (holdLocked b { entry with lastUsed := lastUsed } p)
        (releases ++ [⟨b, false, false⟩]) made closing closed) := by
  rcases entryOf_eq_some hEntry with ⟨hSlot, hHeap⟩
  have hCell : (books p releases made closing closed).cells b =
      some ⟨entry.holders, entry.retired⟩ :=
    congrArg (Option.map _) hHeap
  refine .single ?_
  have hMove := Custody.Move.hold (s := books p releases made closing closed) hSlot hCell
  convert hMove using 1
  apply Custody.Accounts.ext
  · rfl
  · exact cells_insert
  · rfl
  · rfl
  · rfl
  · rfl

/- In which order closes are decided is no matter. -/
theorem books_swap (first second : List Nat) :
    books p releases made (first ++ second ++ closing) closed =
      books p releases made (second ++ (first ++ closing))
        closed := by
  have hPerm : (first ++ second ++ closing).Perm (second ++ (first ++ closing)) := by
    rw [← List.append_assoc]
    exact List.perm_append_comm.append_right closing
  unfold books
  rw [Multiset.coe_eq_coe.mpr hPerm]

theorem leads_pruneEntry (now : Int) (walk : Pool × List Nat) (key : Text) :
    Leads (books walk.1 releases made (walk.2 ++ closing) closed)
      (books (pruneEntry now walk key).1 releases made
        ((pruneEntry now walk key).2 ++ closing) closed) := by
  unfold pruneEntry
  cases walk.1.entryOf key with
  | none => exact .refl
  | some pair =>
    dsimp only
    split_ifs
    · rw [books_swap]
      exact leads_retire key now walk.1
    · exact .refl

theorem leads_prune (order : List Text) (now : Int) (p : Pool) :
    Leads (books p releases made closing closed)
      (books (pruneStaleEntriesLocked order now p).1 releases made
        ((pruneStaleEntriesLocked order now p).2 ++ closing) closed) := by
  have hWalk : ∀ walk : Pool × List Nat, Leads
      (books walk.1 releases made (walk.2 ++ closing) closed)
      (books (order.foldl (pruneEntry now) walk).1 releases made
        ((order.foldl (pruneEntry now) walk).2 ++ closing) closed) := by
    induction order with
    | nil => exact fun walk => .refl
    | cons key order ih =>
      intro walk
      exact (leads_pruneEntry now walk key).trans (ih _)
  exact hWalk (p, [])

/- What a lookup gives to its acquire. -/
def Found.given : Found → List Custody.Release
  | .hit b => [⟨b, false, false⟩]
  | .reread _ => []
  | .miss _ => []

theorem leads_lookupEntry (key specHash entryKey : Text) (readGeneration : Nat)
    (force : Bool) (now : Int) (p : Pool) :
    let look := lookupEntry key specHash entryKey readGeneration force now p
    Leads (books p releases made closing closed)
      (books look.1 (releases ++ look.2.1.given) made (look.2.2.toList ++ closing) closed) := by
  unfold lookupEntry
  cases hEntry : p.entryOf key with
  | none =>
    simp only [Found.given, List.append_nil]
    exact .refl
  | some pair =>
    rcases pair with ⟨b, entry⟩
    dsimp only
    split_ifs
    · exact leads_hold hEntry now
    · simp only [Found.given, List.append_nil]
      exact leads_retire key now p
    · simp only [Found.given, List.append_nil]
      rw [books_generation]
      exact .refl
    · simp only [Found.given, List.append_nil]
      exact leads_retire_generation key now p

theorem leads_lookupOrRetire (key specHash entryKey : Text) (readGeneration : Nat)
    (force : Bool) (now : Int) (order : List Text) (p : Pool) :
    let look := lookupOrRetire key specHash entryKey readGeneration force now order p
    Leads (books p releases made closing closed)
      (books look.1 (releases ++ look.2.1.found.given) made (look.2.2 ++ closing) closed) := by
  unfold lookupOrRetire
  dsimp only
  rw [books_generation, books_swap]
  exact (leads_prune order now p).trans
    (leads_lookupEntry key specHash entryKey readGeneration force now _)

theorem leads_retirePoolEntry
    (key : Text) (readGeneration : Nat) (force : Bool) (now : Int) (p : Pool) :
    let result := retirePoolEntry key readGeneration force now p
    Leads (books p releases made closing closed)
      (books result.1 releases made (result.2.2.toList ++ closing) closed) := by
  unfold retirePoolEntry
  cases p.entryOf key with
  | none => exact leads_retire key now p
  | some pair =>
    dsimp only
    split_ifs
    · exact leads_retire key now p
    · rw [books_generation]
      exact .refl
    · exact leads_retire_generation key now p

theorem leads_retireEntryWithKey (key entryKey : Text) (now : Int) (p : Pool) :
    Leads (books p releases made closing closed)
      (books (retireEntryWithKey key entryKey now p).1 releases made
        ((retireEntryWithKey key entryKey now p).2.toList ++ closing) closed) := by
  unfold retireEntryWithKey
  cases p.entryOf key with
  | none => exact .refl
  | some pair =>
    dsimp only
    split_ifs
    · exact leads_retire key now p
    · exact .refl

/- Who gets a build, and what is closed for it. -/
def Stored.given (next : Nat) : Stored → Custody.Release
  | .pooled => ⟨next, false, false⟩
  | .shared b => ⟨b, false, false⟩
  | .owned => ⟨next, true, false⟩

def Stored.surplus (next : Nat) : Stored → List Nat
  | .shared _ => [next]
  | _ => []

theorem leads_store (hSound : Custody.Sound (books p releases made closing closed)) (key : Text)
    (generation : Nat) (entry : PooledEntry) (hRetired : entry.retired = false) :
    let result := storePooledBackend key generation made entry p
    Leads (books p releases made closing closed) (books result.1 (releases ++ [result.2.given made])
        (made + 1) (result.2.surplus made ++ closing) closed) := by
  have hOwn : Leads (books p releases made closing closed)
      (books p (releases ++ [⟨made, true, false⟩]) (made + 1) closing closed) :=
    .single .own
  unfold storePooledBackend
  by_cases hDeleted : (p.tombstones.lookup key).isSome = true
  · rw [if_pos hDeleted]
    exact hOwn
  · rw [if_neg hDeleted]
    cases hEntry : p.entryOf key with
    | some pair =>
      rcases pair with ⟨b, old⟩
      dsimp only
      split_ifs
      · exact (leads_hold hEntry entry.lastUsed).tail .discard
      · exact hOwn
    | none =>
      split_ifs
      · have hFree := entries_of_entryOf_none hSound hEntry
        refine .single ?_
        have hMove := Custody.Move.publish (s := books p releases made closing closed) hFree
        convert hMove using 1
        apply Custody.Accounts.ext
        · exact slots_insert
        · refine cells_insert.trans ?_
          rw [hRetired]
          rfl
        · rfl
        · rfl
        · rfl
        · rfl
      · exact hOwn

end Books

namespace PoolSystem

def accounts (s : PoolSystem) : Custody.Accounts Text :=
  books s.pool s.releases s.builds.length s.closing s.closed

section Steps

variable {s : PoolSystem} {i : Nat} {a : Acquire}

variable {rel : Custody.Release}

theorem exists_split {releases : List Custody.Release} (rel' : Custody.Release)
    (hRelease : releases[i]? = some rel) : ∃ before after, releases = before ++ rel :: after ∧
      releases.set i rel' = before ++ rel' :: after := by
  rcases List.getElem?_eq_some_iff.mp hRelease with ⟨hI, hEq⟩
  refine ⟨releases.take i, releases.drop (i + 1), ?_, ?_⟩
  · rw [← hEq, List.cons_getElem_drop_succ, List.take_append_drop]
  · exact List.set_eq_take_append_cons_drop.trans (if_pos hI)

theorem leads_stepRelease (hSound : Custody.Sound s.accounts)
    (hRelease : s.releases[i]? = some rel) : Leads s.accounts (s.stepRelease i rel).accounts := by
  rcases rel with ⟨b, owning, done⟩
  cases done with
  | true => exact .refl
  | false =>
    rcases exists_split ⟨b, owning, true⟩ hRelease with ⟨before, after, hSplit, hSet⟩
    have hMem : (⟨b, owning, false⟩ : Custody.Release) ∈ s.accounts.releases :=
      List.mem_of_getElem? hRelease
    have hKind := hSound.kind _ hMem
    refine .single ?_
    cases owning with
    | true =>
      have hMove := Custody.Move.releaseOwned (s := s.accounts) hSplit
      convert hMove using 1
      unfold stepRelease accounts withPool
      rw [hSet]
      rfl
    | false =>
      have hSome : ∃ entry, s.pool.heap.lookup b = some entry := by
        cases hHeap : s.pool.heap.lookup b with
        | none =>
          have hCell : s.accounts.cells b = none := congrArg (Option.map _) hHeap
          rw [hCell] at hKind
          cases hKind
        | some entry => exact ⟨entry, rfl⟩
      rcases hSome with ⟨entry, hHeap⟩
      have hCell : s.accounts.cells b = some ⟨entry.holders, entry.retired⟩ :=
        congrArg (Option.map _) hHeap
      have hMove := Custody.Move.releaseHold (s := s.accounts) hSplit hCell
      convert hMove using 1
      unfold stepRelease accounts withPool releaseLocked
      dsimp only
      rw [hSet, hHeap]
      apply Custody.Accounts.ext
      · rfl
      · exact cells_insert
      · rfl
      · rfl
      · cases hLast :
          (entry.retired && entry.holders - 1 == 0) with
        | true => simp [books, Custody.Accounts.releaseHold, Custody.dueClose, hLast]
        | false => simp [books, Custody.Accounts.releaseHold, Custody.dueClose, hLast]
      · rfl

theorem leads_stepLookup (attempt generation : Nat)
    (found : List SecretVersion) (now : Int) (order : List Text) :
    Leads s.accounts (s.stepLookup hash i a attempt generation found now order).accounts := by
  have hLook := @leads_lookupOrRetire s.releases s.builds.length s.closing s.closed a.call.key
    (specFingerprint hash a.call) (poolEntryKey hash (specFingerprint hash a.call) found)
    generation (decide (poolReadAttempts ≤ attempt)) now order s.pool
  unfold stepLookup
  dsimp only at hLook ⊢
  generalize lookupOrRetire a.call.key (specFingerprint hash a.call)
    (poolEntryKey hash (specFingerprint hash a.call) found)
    generation (decide (poolReadAttempts ≤ attempt)) now order s.pool = result at hLook ⊢
  rcases result with ⟨p, ⟨f, g, n⟩, closes⟩
  cases f with
  | hit b => exact hLook
  | reread | miss =>
    simp only [Found.given, List.append_nil] at hLook
    exact hLook

variable (hSound : Custody.Sound s.accounts)

include hash hSound in
theorem leads_stepStore (generation : Nat) (now : Int) (built : List SecretVersion) :
    Leads s.accounts (s.stepStore hash i a generation now built).accounts := by
  have hStore := leads_store hSound a.call.key generation
    { specHash := specFingerprint hash a.call
      key := poolEntryKey hash (specFingerprint hash a.call) built
      secrets := built
      lastUsed := now
      holders := 0
      retired := false }
    rfl
  unfold stepStore
  dsimp only at hStore ⊢
  generalize storePooledBackend a.call.key generation
    s.builds.length
    { specHash := specFingerprint hash a.call
      key := poolEntryKey hash (specFingerprint hash a.call) built
      secrets := built
      lastUsed := now
      holders := 0
      retired := false }
    s.pool = result at hStore ⊢
  rcases result with ⟨p, stored⟩
  have hLength : ∀ build : Build, (s.builds ++ [build]).length = s.builds.length + 1 :=
    fun build => List.length_append
  cases stored with
  | pooled | shared | owned =>
    unfold accounts setPhase give withPool
    rw [hLength]
    exact hStore

theorem leads_stepRetireGone (attempt generation : Nat) (now : Int) :
    Leads s.accounts (s.stepRetireGone i a attempt generation now).accounts := by
  have hRetire := @leads_retirePoolEntry s.releases
    s.builds.length s.closing s.closed a.call.key generation
    (decide (poolReadAttempts ≤ attempt)) now s.pool
  unfold stepRetireGone
  generalize retirePoolEntry a.call.key generation
    (decide (poolReadAttempts ≤ attempt)) now s.pool = result at hRetire ⊢
  rcases result with ⟨p, staleKey, close⟩
  cases staleKey with
  | none | some => exact hRetire

include hash hSound

theorem leads_stepAcquire (e : AcquireEvent) :
    Leads s.accounts (s.stepAcquire hash i a e).accounts := by
  unfold stepAcquire
  split
  · -- reading the generation
    unfold accounts setPhase withPool
    rw [List.nil_append, books_generation]
  · unfold stepMetadata
    split
    · exact .refl
    · exact .refl
    · split_ifs
      · exact .refl
      · exact .refl
  · exact leads_stepLookup hash _ _ _ _ _
  · exact leads_stepRetireGone _ _ _
  · exact leads_retirePoolEntry a.call.key 0 true _ s.pool
  · exact leads_retireEntryWithKey a.call.key _ _ s.pool
  · exact .refl
  · exact .refl
  · exact .refl
  · exact .refl
  · exact leads_stepStore hash hSound _ _ _
  · exact .refl

/- Every step is a sequence of moves of the accounts. -/
theorem moves_step (e : PoolEvent) : Leads s.accounts (s.step hash e).accounts := by
  cases e with
  | acquire call => exact .refl
  | advance i e =>
    unfold step
    dsimp only
    cases s.acquires[i]? with
    | none => exact .refl
    | some a => exact leads_stepAcquire hash hSound e
  | release i =>
    unfold step
    dsimp only
    cases hRelease : s.releases[i]? with
    | none => exact .refl
    | some rel => exact leads_stepRelease hSound hRelease
  | evictForDelete key now | evict key now => exact leads_retire key now s.pool
  | close b =>
    unfold step
    dsimp only
    split_ifs with hClosing
    · exact .single (Custody.Move.close (s := s.accounts) (Multiset.mem_coe.mpr hClosing))
    · exact .refl

end Steps

theorem sound_start : Custody.Sound start.accounts where
  offers := ⟨fun _ _ h => (nomatch h), fun _ _ _ h => (nomatch h), fun _ _ h => (nomatch h)⟩
  kind _ h := nomatch h
  unmade _ _ := ⟨rfl, rfl, fun _ h => (nomatch h)⟩
  balanced _ h := absurd h (Nat.not_lt_zero _)

theorem sound_exec (events : List PoolEvent) :
    Custody.Sound (Run.exec (step hash) start events).accounts := by
  have hStep : ∀ (s : PoolSystem) e, Custody.Sound s.accounts →
      Custody.Sound (s.step hash e).accounts :=
    fun _ e hSound => hSound.moves (moves_step hash hSound e)
  exact Run.exec_preserves hStep sound_start events

def Held (s : PoolSystem) (b : Nat) : Prop :=
  ∃ rel ∈ s.releases, rel.resource = b ∧ rel.done = false

def Pooled (s : PoolSystem) (b : Nat) : Prop := ∃ key, s.pool.entries.lookup key = some b

/-
  In every state of every run, a backend that was built is closed at most once, and not while it is
  held. A backend that is not pooled and not held is closed exactly once, as soon as the closes that
  were decided are run.
-/
theorem backends_closed_once (hash : Text → Text) (events : List PoolEvent) :
    let s := Run.exec (step hash) start events
    ∀ b < s.builds.length, s.closed.count b ≤ 1 ∧ (s.Held b → b ∉ s.closed ∧ b ∉ s.closing) ∧
      (¬ s.Pooled b → ¬ s.Held b → s.closed.count b + s.closing.count b = 1) := by
  intro s b hBuilt
  have hSound : Custody.Sound s.accounts := sound_exec hash events
  have hHeld : s.Held b ↔ 0 < s.accounts.openOf b := by
    unfold Held Custody.Accounts.openOf
    rw [List.countP_pos_iff]
    simp [Custody.Release.isOpen, accounts, books]
  have hCloses : s.accounts.closes b = s.closing.count b + s.closed.count b := by
    unfold Custody.Accounts.closes accounts books
    rw [Multiset.coe_count, Multiset.coe_count]
  rcases hSound.closedOnce hBuilt with ⟨hOnce, hOpen, hEnd⟩
  rw [hCloses] at hOnce hOpen hEnd
  refine ⟨by omega, ?_, ?_⟩
  · intro hNow
    have hZero := hOpen (hHeld.mp hNow)
    constructor
    · rw [← List.count_eq_zero]
      omega
    · rw [← List.count_eq_zero]
      omega
  · intro hOut hFree
    have hDone := hEnd (fun key hSlot => hOut ⟨key, hSlot⟩)
      (by
        rw [hHeld] at hFree
        omega)
    omega

end PoolSystem

end Sink
end Kollect
