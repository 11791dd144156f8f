import Kollect.Inventory.Auth

/-
  What the requests of the read API leave in memory.

  An answer that is cached stays in the map after it has expired, and a request that is served
  creates the shard of the namespace it names. Neither is ever taken back.

  Key theorems include:
    * `mem_items_exec`
    * `bounded_iff`
-/

namespace Kollect
namespace Inventory

open Collect

----
-- The Server
----

/- A request that is not about the status of objects. -/
def Request.readsStore (r : Request) : Bool :=
  !(statusTargetsPath.isPrefixOf r.path || statusInventoriesPath.isPrefixOf r.path)

structure Server where
  auth : AuthState
  store : Store

namespace Server

/-
  One request. When it is let through the handler runs, and reads the store with `Summary` or the
  status of objects.
-/
def handle (hash : Text → Text) (cfg : AuthConfig) (s : Server) (call : Call) : Server :=
  let auth := middleware hash cfg s.auth call
  ⟨auth, if auth.served.length = s.auth.served.length ∨ ¬ call.request.readsStore then s.store
    else s.store.shardFor (parseListFilter call.request).namespace_⟩

/- A server whose store has seen only mutations. -/
def fresh (mutations : List Store.Mutation) : Server :=
  ⟨.start, Run.exec Store.mutate .empty mutations⟩

def run (hash : Text → Text) (cfg : AuthConfig) (mutations : List Store.Mutation)
    (calls : List Call) : Server :=
  Run.exec (handle hash cfg) (fresh mutations) calls

end Server

/- What a request asks for; none without a token. -/
def Call.combination (call : Call) : Option (Text × AuthScope) :=
  (bearerToken call.request.authorization).toOption.map (·, requestAuthScope call.request)

/- The key of a request whose reviews come to an answer. -/
def Call.answeredKey (hash : Text → Text) (cfg : AuthConfig) (call : Call) : Option Text :=
  if call.user.isSome ∧ (cfg.requireInventoryGet → call.access.isSome) then
    call.combination.map fun asked => authCacheKey (hash asked.1) asked.2
  else none

/- The combinations of the requests of the last lifetime. -/
def recent (ttl now : Int) (calls : List Call) : List (Text × AuthScope) :=
  (calls.filter fun call => decide (call.now ≤ now ∧ now ≤ call.now + ttl)).filterMap
    Call.combination

/-
  The cache has no more entries than the last lifetime had combinations, and every shard was named
  by a mutation.
-/
def Server.Bounded (ttl now : Int) (calls : List Call) (mutations : List Store.Mutation)
    (s : Server) : Prop :=
  s.auth.items.keys.length ≤ (recent ttl now calls).dedup.length ∧
    ∀ ns ∈ s.store.shards.keys, ns ∈ mutations.map Store.Mutation.targetNamespace

instance (ttl now : Int) (calls : List Call) (mutations : List Store.Mutation) (s : Server) :
    Decidable (s.Bounded ttl now calls mutations) :=
  inferInstanceAs (Decidable (_ ∧ _))

/- The namespaces that the served requests read. -/
def readNamespaces (s : AuthState) : List Text :=
  ((s.served.map (·.1.request)).filter Request.readsStore).map (parseListFilter · |>.namespace_)

----
-- What A Request Leaves
----

variable {hash : Text → Text} {cfg : AuthConfig}

theorem served_middleware (s : AuthState) (call : Call) :
    (middleware hash cfg s call).served = s.served ∨
      ∃ reviews, (middleware hash cfg s call).served = (call, reviews) :: s.served := by
  have hKept (s : AuthState) (key : Text) (allowed : Bool) :
      (s.remember cfg.cacheTTL key call.now allowed).served = s.served := by
    unfold AuthState.remember
    split_ifs <;> rfl
  unfold middleware AuthState.serve
  dsimp only
  repeat' split
  all_goals simp [hKept]

theorem mem_items_remember (hTtl : 0 < cfg.cacheTTL) (s : AuthState) (key key' : Text)
    (now : Int) (allowed : Bool) :
    key' ∈ (s.remember cfg.cacheTTL key now allowed).items ↔ key' ∈ s.items ∨ key = key' := by
  unfold AuthState.remember
  rw [if_neg (by omega), or_comm, @eq_comm _ key]
  exact AList.mem_insert _

theorem mem_items_of_cached {s : AuthState} {key : Text} {now : Int} {allowed : Bool}
    (hCached : s.cached key now = some allowed) : key ∈ s.items := by
  rw [← AList.lookup_isSome]
  unfold AuthState.cached at hCached
  cases hLook : s.items.lookup key with
  | none =>
    rw [hLook] at hCached
    cases hCached
  | some entry => rfl

theorem mem_items_middleware (hTtl : 0 < cfg.cacheTTL) (s : AuthState) (call : Call) (key : Text) :
    key ∈ (middleware hash cfg s call).items ↔
      key ∈ s.items ∨ call.answeredKey hash cfg = some key := by
  unfold middleware Call.answeredKey Call.combination
  cases bearerToken call.request.authorization with
  | error err => simp [Except.toOption]
  | ok token =>
    dsimp only [Except.toOption, Option.map_some]
    generalize requestAuthScope call.request = scope
    generalize authCacheKey (hash token) scope = own
    cases hCached : s.cached own call.now with
    | some allowed =>
      -- a hit leaves the cache as it is, and its key is there
      have hOld := mem_items_of_cached hCached
      have hNew : (if call.user.isSome ∧ (cfg.requireInventoryGet → call.access.isSome) then
          some own else none) = some key → key ∈ s.items := by
        intro hKey
        split_ifs at hKey
        cases hKey
        exact hOld
      dsimp only
      split_ifs at hNew ⊢ <;> exact (or_iff_left_of_imp hNew).symm
    | none =>
      cases call.user with
      | none => simp
      | some user =>
        cases cfg.requireInventoryGet with
        | false => simp [AuthState.serve, mem_items_remember hTtl]
        | true =>
          cases call.access with
          | none => simp
          | some allowed => cases allowed <;> simp [AuthState.serve, mem_items_remember hTtl]

/- Every answer ever given is in the cache. -/
theorem mem_items_exec (hTtl : 0 < cfg.cacheTTL) (s : Server) (calls : List Call) (key : Text) :
    key ∈ (Run.exec (Server.handle hash cfg) s calls).auth.items ↔
      key ∈ s.auth.items ∨ key ∈ calls.filterMap (·.answeredKey hash cfg) := by
  induction calls generalizing s with
  | nil => simp
  | cons call calls ih =>
    rw [Run.exec_cons, ih]
    unfold Server.handle
    rw [mem_items_middleware hTtl, or_assoc, List.filterMap_cons]
    cases call.answeredKey hash cfg with
    | none => simp
    | some k => simp [eq_comm]

theorem keys_shards_mutate (s : Store) (m : Store.Mutation) (ns : Text) :
    ns ∈ (s.mutate m).shards ↔ ns = m.targetNamespace ∨ ns ∈ s.shards := by
  cases m with
  | upsert | removeTarget => exact AList.mem_insert _
  | remove tns name uid =>
    unfold Store.mutate Store.remove
    dsimp only
    split <;> exact AList.mem_insert _

theorem shards_exec_mutate (mutations : List Store.Mutation) (s : Store) (ns : Text) :
    ns ∈ (Run.exec Store.mutate s mutations).shards ↔
      ns ∈ s.shards ∨ ns ∈ mutations.map Store.Mutation.targetNamespace := by
  induction mutations generalizing s with
  | nil => simp
  | cons m mutations ih =>
    rw [Run.exec_cons, ih, keys_shards_mutate, List.map_cons, List.mem_cons]
    tauto

theorem mem_shards_handle {P : Prop} (s : Server) (call : Call) (ns : Text)
    (hShards : ns ∈ s.store.shards ↔ P ∨ ns ∈ readNamespaces s.auth) :
    ns ∈ (s.handle hash cfg call).store.shards ↔
      P ∨ ns ∈ readNamespaces (s.handle hash cfg call).auth := by
  unfold Server.handle
  dsimp only
  rcases @served_middleware hash cfg s.auth call with hSame | ⟨reviews, hServed⟩
  · rw [if_pos (.inl (congrArg _ hSame)), hShards]
    unfold readNamespaces
    rw [hSame]
  · unfold readNamespaces at *
    rw [hServed, List.map_cons, List.filter_cons]
    cases hReads : call.request.readsStore with
    | false => simpa using hShards
    | true =>
      rw [if_neg (by simp), if_pos rfl, List.map_cons, List.mem_cons]
      unfold Store.shardFor
      rw [AList.mem_insert, hShards]
      tauto

theorem mem_shards_exec (mutations : List Store.Mutation) (calls : List Call) (ns : Text) :
    ns ∈ (Server.run hash cfg mutations calls).store.shards ↔
      ns ∈ mutations.map Store.Mutation.targetNamespace ∨
        ns ∈ readNamespaces (Server.run hash cfg mutations calls).auth :=
  Run.exec_preserves (fun s call hShards => mem_shards_handle s call ns hShards)
    ((shards_exec_mutate mutations _ ns).trans or_comm) calls

/-
  The memory is bounded by the recent requests exactly when no more keys were ever answered than
  combinations were asked for lately, and every namespace that was read had been mutated.
-/
theorem bounded_iff (hash : Text → Text) {cfg : AuthConfig} (hTtl : 0 < cfg.cacheTTL)
    (mutations : List Store.Mutation) (calls : List Call) (now : Int) :
    (Server.run hash cfg mutations calls).Bounded cfg.cacheTTL now calls mutations ↔
      (calls.filterMap (·.answeredKey hash cfg)).dedup.length ≤
          (recent cfg.cacheTTL now calls).dedup.length ∧
        ∀ ns ∈ readNamespaces (Server.run hash cfg mutations calls).auth,
          ns ∈ mutations.map Store.Mutation.targetNamespace := by
  have hKeys : (Server.run hash cfg mutations calls).auth.items.keys.Perm
      (calls.filterMap (·.answeredKey hash cfg)).dedup := by
    rw [List.perm_ext_iff_of_nodup (AList.keys_nodup _) (List.nodup_dedup _)]
    intro key
    rw [List.mem_dedup, ← AList.mem_keys, Server.run, mem_items_exec hTtl]
    exact or_iff_right (List.not_mem_nil)
  unfold Server.Bounded
  rw [hKeys.length_eq]
  refine and_congr_right fun _ => forall_congr' fun ns => ?_
  rw [← AList.mem_keys, mem_shards_exec]
  tauto

/- A request for a namespace at a time, by a known user. -/
def readAt (now : Int) (namespace_ : Text) : Call :=
  ⟨requestFor namespace_, now, some ⟨['u'], []⟩, some true⟩

/- One request, of a namespace that was mutated. -/
theorem one_recent_read_is_bounded :
    (Server.run id ⟨true, 60⟩ [.removeTarget ['n'] ['t']] [readAt 0 ['n']]).Bounded 60 0
      [readAt 0 ['n']] [.removeTarget ['n'] ['t']] :=
  (bounded_iff id (by decide) _ _ _).mpr ⟨by decide, by decide⟩

/-
  Two requests for unknown namespaces, an hour apart: one combination is recent, the cache has two
  entries, and the store has a shard for each namespace.
-/
theorem expired_answers_stay :
    let calls := [readAt 0 ['m'], readAt 3600 ['n']]
    let s := Server.run id ⟨true, 60⟩ [] calls
    s.auth.items.keys.length = 2 ∧ (recent 60 3600 calls).dedup.length = 1 ∧
      s.store.shards.keys = [['n'], ['m']] ∧ ¬ s.Bounded 60 3600 calls [] := by
  decide

----
-- Requests Beside Mutations
----

/- A mutation by the engine, or a request. -/
inductive ServerEvent where
  | mutation (m : Store.Mutation)
  | request (call : Call)

def ServerEvent.mutation? : ServerEvent → Option Store.Mutation
  | .mutation m => some m
  | .request _ => none

def Server.step (hash : Text → Text) (cfg : AuthConfig) (s : Server) : ServerEvent → Server
  | .mutation m => { s with store := s.store.mutate m }
  | .request call => s.handle hash cfg call

/- Requests in between are not seen in the rows and the counter of any namespace. -/
theorem requests_change_no_rows (hash : Text → Text) (cfg : AuthConfig) (s : Server)
    (events : List ServerEvent) (ns : Text) :
    (Run.exec (Server.step hash cfg) s events).store.view ns =
      (Run.exec Store.mutate s.store (events.filterMap ServerEvent.mutation?)).view ns := by
  suffices hRun : ∀ store : Store, (∀ ns, s.store.view ns = store.view ns) →
      (Run.exec (Server.step hash cfg) s events).store.view ns =
        (Run.exec Store.mutate store (events.filterMap ServerEvent.mutation?)).view ns from
    hRun s.store fun _ => rfl
  induction events generalizing s with
  | nil => exact fun store hSame => hSame ns
  | cons event events ih =>
    intro store hSame
    cases event with
    | mutation m =>
      obtain ⟨change, hChange⟩ := Store.exists_view_mutate m
      refine ih _ _ fun ns => ?_
      rw [Server.step, hChange, hChange, hSame]
    | request call =>
      refine ih _ store fun ns => ?_
      rw [Server.step, Server.handle, ← hSame]
      split_ifs
      · rfl
      · exact Store.view_shardFor ..

end Inventory
end Kollect
