import Kollect.Api
import Kollect.Foundation.Run
import Mathlib.Data.Finset.Card

/-
  The cached access reviews of the operator (`internal/collect/access.go`): a map to the elements of
  a list in the order of their last use.

  Key theorems include:
    * `AccessRun.lruLaws_exec`
    * `canAccess_answers_last_review`
-/

namespace Kollect
namespace Collect

structure AccessCacheEntry where
  key : Text
  allowed : Bool
  expiresAt : Int
deriving DecidableEq

/- The map has the elements of the list, each as its entry. -/
structure AccessChecker where
  cacheTTL : Int
  capacity : Nat
  lru : List AccessCacheEntry
  cache : GoMap Text AccessCacheEntry

namespace AccessChecker

def lookup (a : AccessChecker) (now : Int) (key : Text) : AccessChecker × Option Bool :=
  match a.cache.lookup key with
  | none => (a, none)
  | some el =>
    if ¬ now < el.expiresAt then
      ({ a with lru := a.lru.erase el, cache := a.cache.erase key }, none)
    else ({ a with lru := el :: a.lru.erase el }, some el.allowed)

/- The eviction loop, which drops an element in every turn. -/
def evict : Nat → AccessChecker → AccessChecker
  | 0, a => a
  | turns + 1, a =>
    if 0 < a.capacity ∧ a.capacity < a.lru.length then
      match a.lru.getLast? with
      | none => a
      | some oldest =>
        evict turns { a with lru := a.lru.dropLast, cache := a.cache.erase oldest.key }
    else a

def store (a : AccessChecker) (now : Int) (key : Text) (allowed : Bool) : AccessChecker :=
  let expiresAt := now + a.cacheTTL
  match a.cache.lookup key with
  | some el =>
    let entry := { el with allowed := allowed, expiresAt := expiresAt }
    { a with lru := entry :: a.lru.erase el, cache := a.cache.insert key entry }
  | none =>
    let el := ⟨key, allowed, expiresAt⟩
    evict (a.lru.length + 1) { a with lru := el :: a.lru, cache := a.cache.insert key el }

theorem evict_of_le {a : AccessChecker} (hLe : a.lru.length ≤ a.capacity) (turns : Nat) :
    evict turns a = a := by
  cases turns with
  | zero => rfl
  | succ turns => exact if_neg (by omega)

theorem evict_concat {ttl : Int} {n : Nat} {l : List AccessCacheEntry} {oldest : AccessCacheEntry}
    {cache : GoMap Text AccessCacheEntry} (hN : 0 < n) (hLen : l.length = n) (turns : Nat) :
    evict (turns + 1) ⟨ttl, n, l ++ [oldest], cache⟩ = ⟨ttl, n, l, cache.erase oldest.key⟩ := by
  unfold evict
  rw [if_pos (by simp; omega), List.getLast?_concat, List.dropLast_concat]
  exact evict_of_le hLen.le turns

end AccessChecker

----
-- Calls
----

inductive AccessCall where
  | lookup (now : Int) (key : Text)
  | store (now : Int) (key : Text) (allowed : Bool)

def AccessCall.now : AccessCall → Int
  | .lookup now _ => now
  | .store now _ _ => now

/-
  The checker with the time of the last call, the keys that were looked up successfully or stored,
  and the stored decisions, the latest first.
-/
structure AccessRun where
  checker : AccessChecker
  now : Int
  uses : List Text
  stores : List (Int × Text × Bool)

/- The last decision that was stored for a key, with its time. -/
def lastStore (stores : List (Int × Text × Bool)) (key : Text) : Option (Int × Text × Bool) :=
  stores.find? (·.2.1 = key)

/- The keys that were used since the last use of a key. -/
def usedSince (uses : List Text) (key : Text) : Finset Text := (uses.takeWhile (· ≠ key)).toFinset

namespace AccessRun

def step (r : AccessRun) : AccessCall → AccessRun
  | .lookup now key =>
    let (a, found) := r.checker.lookup now key
    ⟨a, now, if found.isSome then key :: r.uses else r.uses, r.stores⟩
  | .store now key allowed =>
    ⟨r.checker.store now key allowed, now, key :: r.uses, (now, key, allowed) :: r.stores⟩

def start (ttl : Int) (capacity : Nat) (now : Int) : AccessRun :=
  ⟨⟨ttl, capacity, [], ∅⟩, now, [], []⟩

/- What is promised of the cache, for a call at any later time. -/
structure LruLaws (r : AccessRun) : Prop where
  sameKeys : r.checker.cache.keys.Perm (r.checker.lru.map (·.key))
  nodup : (r.checker.lru.map (·.key)).Nodup
  bounded : r.checker.lru.length ≤ r.checker.capacity
  hit : ∀ now ≥ r.now, ∀ key allowed, (r.checker.lookup now key).2 = some allowed →
    ∃ time, lastStore r.stores key = some (time, key, allowed) ∧ now < time + r.checker.cacheTTL
  missing : ∀ now ≥ r.now, ∀ key time allowed, lastStore r.stores key = some (time, key, allowed) →
    now < time + r.checker.cacheTTL → (r.checker.lookup now key).2 = none →
      r.checker.capacity ≤ (usedSince r.uses key).card

end AccessRun

----
-- The Order Of Use
----

/- The list is in the order of use; a key that is missing has expired or was overtaken. -/
structure Recency (ttl : Int) (n : Nat) (lru : List AccessCacheEntry)
    (cache : GoMap Text AccessCacheEntry) (now : Int) (uses : List Text)
    (stores : List (Int × Text × Bool)) : Prop where
  linked : ∀ key el, cache.lookup key = some el ↔ el ∈ lru ∧ el.key = key
  nodup : (lru.map (·.key)).Nodup
  bounded : lru.length ≤ n
  last : ∀ el ∈ lru, lastStore stores el.key = some (el.expiresAt - ttl, el.key, el.allowed)
  ordered : lru.Pairwise fun x y => x.key ∈ usedSince uses y.key
  overtaken : ∀ key time allowed, lastStore stores key = some (time, key, allowed) →
    now < time + ttl → key ∉ lru.map (·.key) → n ≤ (usedSince uses key).card

namespace Recency

variable {ttl now now' : Int} {n : Nat} {lru rest : List AccessCacheEntry}
  {cache cache' : GoMap Text AccessCacheEntry} {uses : List Text}
  {stores stores' : List (Int × Text × Bool)} {key gone : Text} {e old : AccessCacheEntry}

theorem usedSince_cons (hNe : e.key ≠ key) :
    usedSince (e.key :: uses) key = insert e.key (usedSince uses key) := by
  unfold usedSince
  rw [List.takeWhile_cons, if_pos (by simpa using hNe), List.toFinset_cons]

variable (hRec : Recency ttl n lru cache now uses stores) (hNow : now ≤ now')

include hRec

theorem mem_erase (hOld : old ∈ lru) (e : AccessCacheEntry) :
    e ∈ lru.erase old ↔ e ∈ lru ∧ e.key ≠ old.key := by
  rw [(List.Nodup.of_map _ hRec.nodup).mem_erase_iff, and_comm]
  refine and_congr_right fun hEl => not_congr ⟨congrArg _, ?_⟩
  exact List.inj_on_of_nodup_map hRec.nodup hEl hOld

include hNow

theorem expire (hOld : old ∈ lru) (hExpired : old.expiresAt ≤ now') :
    Recency ttl n (lru.erase old) (cache.erase old.key) now' uses stores := by
  have hSub : (lru.erase old).Sublist lru := List.erase_sublist
  refine ⟨?_, hRec.nodup.sublist (hSub.map _), hSub.length_le.trans hRec.bounded,
    fun x hX => hRec.last x (hSub.subset hX), hRec.ordered.sublist hSub, ?_⟩
  · intro k e
    have hLinked := hRec.linked k e
    rw [GoMap.lookup_erase_ite, hRec.mem_erase hOld]
    grind
  · intro k time allowed hStore hFresh hMissing
    refine hRec.overtaken k time allowed hStore (by omega) fun hIn => ?_
    rcases List.mem_map.mp hIn with ⟨x, hX, rfl⟩
    by_cases hKey : x.key = old.key
    · rw [hKey, hRec.last old hOld] at hStore
      cases hStore
      omega
    · exact hMissing (List.mem_map_of_mem ((hRec.mem_erase hOld x).mpr ⟨hX, hKey⟩))

/-
  An element comes to the front, and the key `gone` leaves. If it is another key, the cache is full
  and all have overtaken it.
-/
theorem front (hLast : lastStore stores' e.key = some (e.expiresAt - ttl, e.key, e.allowed))
    (hOther : ∀ k, e.key ≠ k → lastStore stores' k = lastStore stores k)
    (hSub : rest.Sublist lru) (hRest : ∀ x, x ∈ rest ↔ x ∈ lru ∧ x.key ≠ gone)
    (hNew : ∀ x ∈ rest, e.key ≠ x.key) (hLen : rest.length < n)
    (hCache : ∀ k, cache'.lookup k =
      if k = e.key then some e else if k = gone then none else cache.lookup k)
    (hGone : gone ≠ e.key → rest.length + 1 = n ∧ ∀ x ∈ rest, x.key ∈ usedSince uses gone) :
    Recency ttl n (e :: rest) cache' now' (e.key :: uses) stores' := by
  have hNodup : ((e :: rest).map (·.key)).Nodup := by
    refine List.nodup_cons.mpr ⟨fun hIn => ?_, hRec.nodup.sublist (hSub.map _)⟩
    rcases List.mem_map.mp hIn with ⟨x, hX, hEq⟩
    exact hNew x hX hEq.symm
  refine ⟨?_, hNodup, hLen, ?_, List.pairwise_cons.mpr ⟨?_, ?_⟩, ?_⟩
  · intro k x
    have hLinked := hRec.linked k x
    have hX := hRest x
    rw [hCache]
    grind
  · intro x hX
    rcases List.mem_cons.mp hX with rfl | hOld
    · exact hLast
    · rw [hOther x.key (hNew x hOld)]
      exact hRec.last x (hSub.subset hOld)
  · intro x hX
    rw [usedSince_cons (hNew x hX)]
    exact Finset.mem_insert_self _ _
  · refine (hRec.ordered.sublist hSub).imp_of_mem fun _ hY hBefore => ?_
    rw [usedSince_cons (hNew _ hY)]
    exact Finset.mem_insert_of_mem hBefore
  · intro k time allowed hStore hFresh hMissing
    rw [List.map_cons, List.mem_cons, not_or] at hMissing
    rw [hOther k (Ne.symm hMissing.1)] at hStore
    rw [usedSince_cons (Ne.symm hMissing.1)]
    by_cases hOld : k ∈ lru.map (·.key)
    · have hK : k = gone := by
        rcases List.mem_map.mp hOld with ⟨y, hY, rfl⟩
        by_contra hNe
        exact hMissing.2 (List.mem_map_of_mem ((hRest y).mpr ⟨hY, hNe⟩))
      subst hK
      rcases hGone hMissing.1 with ⟨hFull, hBefore⟩
      -- the keys of the list are as many as fit
      rw [← hFull, ← List.length_cons, ← List.length_map (·.key),
        ← List.toFinset_card_of_nodup hNodup]
      refine Finset.card_le_card fun k hK => ?_
      rcases List.mem_map.mp (List.mem_toFinset.mp hK) with ⟨x, hX, rfl⟩
      rcases List.mem_cons.mp hX with rfl | hX
      · exact Finset.mem_insert_self _ _
      · exact Finset.mem_insert_of_mem (hBefore x hX)
    · exact (hRec.overtaken k time allowed hStore (by omega) hOld).trans
        (Finset.card_le_card (Finset.subset_insert _ _))

variable (hLast : lastStore stores' e.key = some (e.expiresAt - ttl, e.key, e.allowed))
  (hOther : ∀ k, e.key ≠ k → lastStore stores' k = lastStore stores k)

include hLast hOther

theorem move (hOld : old ∈ lru) (hKey : old.key = e.key)
    (hCache : ∀ k, cache'.lookup k = if k = e.key then some e else cache.lookup k) :
    Recency ttl n (e :: lru.erase old) cache' now' (e.key :: uses) stores' := by
  have hMem := hRec.mem_erase hOld
  have hLen := List.length_erase_add_one hOld
  have hBound := hRec.bounded
  refine hRec.front hNow hLast hOther List.erase_sublist hMem ?_ (by omega) ?_ (absurd hKey)
  · intro x hX hEq
    exact ((hMem x).mp hX).2 (hEq.symm.trans hKey.symm)
  · intro k
    rw [hCache]
    grind

/- A new element is pushed, and the oldest one goes if there is no room. -/
theorem push (hN : 0 < n) (hNone : cache.lookup e.key = none) : ∃ lru' cache',
    AccessChecker.evict (lru.length + 1) ⟨ttl, n, e :: lru, cache.insert e.key e⟩ =
        ⟨ttl, n, lru', cache'⟩ ∧ Recency ttl n lru' cache' now' (e.key :: uses) stores' := by
  have hNew : ∀ x ∈ lru, e.key ≠ x.key := by
    intro x hX hEq
    rw [(hRec.linked e.key x).mpr ⟨hX, hEq.symm⟩] at hNone
    cases hNone
  by_cases hFull : lru.length < n
  · refine ⟨_, _, AccessChecker.evict_of_le (a := ⟨ttl, n, e :: lru, _⟩) hFull _,
      hRec.front hNow hLast hOther (.refl _) ?_ hNew hFull ?_ (absurd rfl)⟩
    · exact fun x => (and_iff_left_of_imp fun hX => (hNew x hX).symm).symm
    · intro k
      rw [GoMap.lookup_insert_ite]
      grind
  · rcases List.eq_nil_or_concat' lru with rfl | ⟨rest, oldest, rfl⟩
    · exact absurd hN hFull
    have hBound := hRec.bounded
    have hNodup := hRec.nodup
    rw [List.length_append, List.length_singleton] at hFull hBound
    rw [List.map_append, List.nodup_append] at hNodup
    refine ⟨_, _, AccessChecker.evict_concat (l := e :: rest) hN (by simp; omega) _,
      hRec.front hNow hLast hOther (List.sublist_append_left ..) ?_
        (fun x hX => hNew x (List.mem_append_left _ hX)) (by omega) ?_ fun _ =>
          ⟨by omega, fun x hX =>
            (List.pairwise_append.mp hRec.ordered).2.2 x hX oldest List.mem_cons_self⟩⟩
    · intro x
      have hLeft : x ∈ rest → x.key ≠ oldest.key := fun hX =>
        hNodup.2.2 _ (List.mem_map_of_mem hX) _ List.mem_cons_self
      grind
    · intro k
      have hOldest := hNew oldest (by simp)
      rw [GoMap.lookup_erase_ite, GoMap.lookup_insert_ite]
      grind

end Recency

namespace AccessRun

variable {r : AccessRun}

/- There is room, and the cache is in the order of use. -/
structure InOrder (r : AccessRun) : Prop where
  room : 0 < r.checker.capacity
  recency : Recency r.checker.cacheTTL r.checker.capacity r.checker.lru r.checker.cache r.now
    r.uses r.stores

theorem inOrder_step (call : AccessCall) (hR : r.InOrder) (hNow : r.now ≤ call.now) :
    (r.step call).InOrder := by
  rcases r with ⟨⟨ttl, n, lru, cache⟩, clock, uses, stores⟩
  rcases hR with ⟨hN, hRec⟩
  cases call with
  | lookup now key =>
    cases hFound : cache.lookup key with
    | none =>
      simp only [step, AccessChecker.lookup, hFound]
      exact ⟨hN, { hRec with
        overtaken := fun k time allowed hStore hFresh =>
          hRec.overtaken k time allowed hStore (lt_of_le_of_lt hNow hFresh) }⟩
    | some e =>
      rcases (hRec.linked key e).mp hFound with ⟨hMem, rfl⟩
      by_cases hFresh : now < e.expiresAt
      · simp only [step, AccessChecker.lookup, hFound, hFresh, not_true, if_false]
        refine ⟨hN, hRec.move hNow (hRec.last e hMem) (fun _ _ => rfl) hMem rfl fun k => ?_⟩
        grind
      · simp only [step, AccessChecker.lookup, hFound, hFresh, not_false_eq_true, if_true]
        exact ⟨hN, hRec.expire hNow hMem (not_lt.mp hFresh)⟩
  | store now key allowed =>
    have hLast : lastStore ((now, key, allowed) :: stores) key =
        some (now + ttl - ttl, key, allowed) := by simp [lastStore]
    have hOther : ∀ k, key ≠ k →
        lastStore ((now, key, allowed) :: stores) k = lastStore stores k := by
      intro k hK
      simp [lastStore, hK]
    cases hFound : cache.lookup key with
    | some e =>
      rcases (hRec.linked key e).mp hFound with ⟨hMem, rfl⟩
      simp only [step, AccessChecker.store, hFound]
      exact ⟨hN, hRec.move (e := ⟨e.key, allowed, now + ttl⟩) hNow hLast hOther hMem rfl
        fun k => GoMap.lookup_insert_ite ..⟩
    | none =>
      rcases hRec.push (e := ⟨key, allowed, now + ttl⟩) hNow hLast hOther hN hFound with
        ⟨lru', cache', hEvict, hKept⟩
      simp only [step, AccessChecker.store, hFound, hEvict]
      exact ⟨hN, hKept⟩

theorem lruLaws_of_inOrder (hR : r.InOrder) : r.LruLaws := by
  have hRec := hR.recency
  refine ⟨?_, hRec.nodup, hRec.bounded, ?_, ?_⟩
  · rw [List.perm_ext_iff_of_nodup (AList.keys_nodup _) hRec.nodup]
    intro key
    rw [← AList.mem_keys, ← AList.lookup_isSome, Option.isSome_iff_exists, List.mem_map]
    exact exists_congr (hRec.linked key)
  · intro now _ key allowed hHit
    unfold AccessChecker.lookup at hHit
    cases hFound : r.checker.cache.lookup key with
    | none => simp [hFound] at hHit
    | some e =>
      rcases (hRec.linked key e).mp hFound with ⟨hMem, rfl⟩
      by_cases hFresh : now < e.expiresAt
      · simp only [hFound, hFresh, not_true, if_false, Option.some.injEq] at hHit
        exact ⟨_, hHit ▸ hRec.last e hMem, by omega⟩
      · simp [hFound, hFresh] at hHit
  · intro now hNow key time allowed hStore hFresh hMiss
    refine hRec.overtaken key time allowed hStore (lt_of_le_of_lt hNow hFresh) fun hIn => ?_
    rcases List.mem_map.mp hIn with ⟨e, hMem, rfl⟩
    rw [hRec.last e hMem] at hStore
    cases hStore
    have hValid : now < e.expiresAt := by omega
    simp [AccessChecker.lookup, (hRec.linked _ e).mpr ⟨hMem, rfl⟩, hValid] at hMiss

/- The laws hold after any calls with a clock that does not go back. -/
theorem lruLaws_exec (ttl : Int) {n : Nat} (hN : 0 < n) (now : Int) {calls : List AccessCall}
    (hClock : Run.Along step (fun r call => r.now ≤ call.now) (start ttl n now) calls) :
    (Run.exec step (start ttl n now) calls).LruLaws := by
  have hStart : (start ttl n now).InOrder :=
    ⟨hN, by simp [start], .nil, Nat.zero_le _, by simp [start], .nil, by simp [start, lastStore]⟩
  exact lruLaws_of_inOrder (Run.exec_invariant (fun r call => inOrder_step call) hStart hClock)

/- A store, a hit and an eviction, in a cache of one entry. -/
theorem lruLaws_of_one_entry : (Run.exec step (start 30 1 0)
    [.store 0 ['a'] true, .lookup 1 ['a'], .store 2 ['b'] false]).LruLaws :=
  lruLaws_exec 30 (by decide) 0 (by decide)

end AccessRun

----
-- Reviews
----

/- What a review is about. -/
structure AccessRequest where
  gvr : GroupVersionResource
  namespace_ : Text
  verb : Text
deriving DecidableEq

/- `schema.GroupResource.String`. -/
def groupResourceText (gvr : GroupVersionResource) : Text :=
  if gvr.group = [] then gvr.resource else gvr.resource ++ '.' :: gvr.group

def accessCacheKey (r : AccessRequest) : Text :=
  groupResourceText r.gvr ++ '/' :: (r.namespace_ ++ '/' :: (r.verb ++ '/' :: r.gvr.version))

/-
  `review` is what the API server answers, if it is asked. This is a checker with a client; a
  checker without one allows everything and has no cache.
-/
def AccessChecker.canAccess (a : AccessChecker) (r : AccessRequest) (lookupAt storeAt : Int)
    (review : Except Text Bool) : AccessChecker × Except Text Bool :=
  match a.lookup lookupAt (accessCacheKey r) with
  | (a, some allowed) => (a, .ok allowed)
  | (a, none) =>
    match review with
    | .error err => (a, .error ("self subject access review: " ++ err))
    | .ok allowed => (a.store storeAt (accessCacheKey r) allowed, .ok allowed)

/- The two lock sections of a call; those of other calls may come in between. -/
inductive AccessEvent where
  | lookup (r : AccessRequest) (now : Int)
  | reviewed (r : AccessRequest) (now : Int) (allowed : Bool)

def AccessEvent.request : AccessEvent → AccessRequest
  | .lookup r _ => r
  | .reviewed r _ _ => r

def AccessEvent.call : AccessEvent → AccessCall
  | .lookup r now => .lookup now (accessCacheKey r)
  | .reviewed r now allowed => .store now (accessCacheKey r) allowed

/- The last review of a request, with its time. -/
def lastReview (events : List AccessEvent) (r : AccessRequest) : Option (Int × Bool) :=
  events.reverse.findSome? fun
    | .reviewed r' now allowed => if r' = r then some (now, allowed) else none
    | .lookup _ _ => none

/- The names of the API server: no slash in any, and no dot in a resource. -/
structure AccessRequest.Plain (r : AccessRequest) : Prop where
  resource : '.' ∉ r.gvr.resource
  slash : '/' ∉ r.gvr.resource ++ r.gvr.group ++ r.namespace_ ++ r.verb

theorem groupResourceText_inj {gvr gvr' : GroupVersionResource} (hDot : '.' ∉ gvr.resource)
    (hDot' : '.' ∉ gvr'.resource) (hEq : groupResourceText gvr = groupResourceText gvr') :
    gvr.resource = gvr'.resource ∧ gvr.group = gvr'.group := by
  unfold groupResourceText at hEq
  split_ifs at hEq with hGroup hGroup' hGroup'
  · exact ⟨hEq, hGroup.trans hGroup'.symm⟩
  · exact absurd (by simp [hEq]) hDot
  · exact absurd (by simp [← hEq]) hDot'
  · exact (Text.append_sep_inj hDot hDot').mp hEq

theorem accessCacheKey_inj {r r' : AccessRequest} (hR : r.Plain) (hR' : r'.Plain) :
    accessCacheKey r = accessCacheKey r' ↔ r = r' := by
  have hSlash : ∀ {r : AccessRequest}, r.Plain →
      '/' ∉ groupResourceText r.gvr ∧ '/' ∉ r.namespace_ ∧ '/' ∉ r.verb := by
    intro r hR
    have hNone := hR.slash
    unfold groupResourceText
    split_ifs <;> simp_all
  refine ⟨fun hEq => ?_, congrArg _⟩
  have hOne := hSlash hR
  have hTwo := hSlash hR'
  unfold accessCacheKey at hEq
  rw [Text.append_sep_inj hOne.1 hTwo.1, Text.append_sep_inj hOne.2.1 hTwo.2.1,
    Text.append_sep_inj hOne.2.2 hTwo.2.2] at hEq
  rcases hEq with ⟨hGvr, hNs, hVerb, hVersion⟩
  rcases groupResourceText_inj hR.resource hR'.resource hGvr with ⟨hResource, hGroup⟩
  rcases r with ⟨⟨group, version, resource⟩, ns, verb⟩
  subst hNs hVerb hVersion hResource hGroup
  rfl

namespace AccessRun

/- The run of the sections, from an empty cache. -/
def after (ttl : Int) (n : Nat) (now : Int) (events : List AccessEvent) : AccessRun :=
  Run.exec step (start ttl n now) (events.map AccessEvent.call)

theorem cacheTTL_evict (turns : Nat) (a : AccessChecker) :
    (a.evict turns).cacheTTL = a.cacheTTL := by
  fun_induction AccessChecker.evict turns a with
  | case3 => assumption
  | _ => rfl

theorem cacheTTL_after (ttl : Int) (n : Nat) (now : Int) (events : List AccessEvent) :
    (after ttl n now events).checker.cacheTTL = ttl := by
  have hStep : ∀ (r : AccessRun) (call : AccessCall), r.checker.cacheTTL = ttl →
      (r.step call).checker.cacheTTL = ttl := by
    rintro r (⟨now, key⟩ | ⟨now, key, allowed⟩) hTtl
    · unfold step AccessChecker.lookup
      dsimp only
      split
      · exact hTtl
      · split_ifs <;> exact hTtl
    · unfold step AccessChecker.store
      dsimp only
      split
      · exact hTtl
      · rw [cacheTTL_evict]
        exact hTtl
  exact Run.exec_preserves hStep rfl _

theorem lastStore_after (ttl : Int) (n : Nat) (now : Int) {r : AccessRequest} (hR : r.Plain)
    {events : List AccessEvent} (hPlain : ∀ e ∈ events, e.request.Plain) :
    lastStore (after ttl n now events).stores (accessCacheKey r) =
      (lastReview events r).map fun (time, allowed) => (time, accessCacheKey r, allowed) := by
  induction events using List.reverseRecOn with
  | nil => rfl
  | append_singleton events e ih =>
    rw [List.forall_mem_append, List.forall_mem_singleton] at hPlain
    have hBefore := ih hPlain.1
    unfold after lastStore lastReview at hBefore ⊢
    rw [List.map_append, Run.exec_append, List.reverse_append]
    cases e with
    | lookup r' time => exact hBefore
    | reviewed r' time allowed =>
      have hKey : accessCacheKey r' = accessCacheKey r ↔ r' = r := accessCacheKey_inj hPlain.2 hR
      by_cases hSame : r' = r
      · simp [AccessEvent.call, step, hSame]
      · simpa [AccessEvent.call, step, hKey, hSame] using hBefore

end AccessRun

/-
  A call answers what its own review says, or what the last review of the same request said, less
  than the lifetime ago.
-/
theorem canAccess_answers_last_review (ttl : Int) {n : Nat} (hN : 0 < n) (start : Int)
    {events : List AccessEvent} (hPlain : ∀ e ∈ events, e.request.Plain)
    (hClock : Run.Along AccessRun.step (fun s call => s.now ≤ call.now) (.start ttl n start)
      (events.map AccessEvent.call)) {r : AccessRequest} (hR : r.Plain) {lookupAt storeAt : Int}
    (hNow : (AccessRun.after ttl n start events).now ≤ lookupAt)
    {review : Except Text Bool} {allowed : Bool}
    (hOk : ((AccessRun.after ttl n start events).checker.canAccess r lookupAt storeAt review).2 =
      .ok allowed) : review = .ok allowed ∨
      ∃ time, lastReview events r = some (time, allowed) ∧ lookupAt < time + ttl := by
  have hStart : (AccessRun.start ttl n start).InOrder :=
    ⟨hN, by simp [AccessRun.start], .nil, Nat.zero_le _, by simp [AccessRun.start], .nil,
      by simp [AccessRun.start, lastStore]⟩
  have hLaws : (AccessRun.after ttl n start events).LruLaws := AccessRun.lruLaws_of_inOrder
    (Run.exec_invariant (fun r call => AccessRun.inOrder_step call) hStart hClock)
  unfold AccessChecker.canAccess at hOk
  rcases hLook : (AccessRun.after ttl n start events).checker.lookup lookupAt
    (accessCacheKey r) with ⟨a, _ | hit⟩
  · left
    rw [hLook] at hOk
    cases review with
    | error err => cases hOk
    | ok answer => exact hOk
  · right
    rw [hLook] at hOk
    cases hOk
    rcases hLaws.hit lookupAt hNow _ _ (by rw [hLook]) with ⟨time, hLast, hFresh⟩
    rw [AccessRun.lastStore_after ttl n start hR hPlain, Option.map_eq_some_iff] at hLast
    rcases hLast with ⟨_, hReview, hEq⟩
    cases hEq
    rw [AccessRun.cacheTTL_after] at hFresh
    exact ⟨_, hReview, hFresh⟩

def podsRequest : AccessRequest := ⟨⟨[], "v1", "pods"⟩, "team", "get"⟩

/- The answer of a review is found a second later, when no review could be made. -/
theorem cached_review_is_answered : (.error "timeout" : Except Text Bool) = .ok true ∨
      ∃ time, lastReview [.reviewed podsRequest 0 true] podsRequest = some (time, true) ∧
        1 < time + 30 :=
  have hPlain : podsRequest.Plain := ⟨by decide, by decide⟩
  @canAccess_answers_last_review 30 1 (by decide) 0 _ (by simpa [AccessEvent.request] using hPlain)
    (by decide) _ hPlain 1 1 (by decide) _ _ rfl

end Collect
end Kollect
