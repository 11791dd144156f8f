import Kollect.Foundation.Run
import Kollect.Inventory.Server

/-
  The authorization of the read API (`inventory/auth.go`, `inventory/auth_cache.go`,
  `inventory/bearer.go`).

  A request is let through when its token was reviewed and the user may read what the request names.
  The answer is cached under the hash of the token and the scope of the request. What the handler
  then reads is derived from the request once more.

  Key theorems include:
    * `covered_iff_namesScope`
    * `named_inventory_reads_everything`
-/

namespace Kollect
namespace Inventory

open Collect

----
-- Tokens And Scopes
----

inductive BearerError where
  | missingHeader
  | notBearer
  | emptyToken
deriving DecidableEq, Repr

def bearerPrefix : Text := "Bearer "

def bearerToken (header : Text) : Except BearerError Text :=
  if header = [] then .error .missingHeader
  else if ¬ bearerPrefix.isPrefixOf header then .error .notBearer
  else
    let token := Text.trimSpace (Text.trimStart header bearerPrefix)
    if token = [] then .error .emptyToken else .ok token

inductive Verb where
  | get
  | list
deriving DecidableEq, Repr

def Verb.text : Verb → Text
  | .get => "get"
  | .list => "list"

inductive Resource where
  | inventories
  | targets
deriving DecidableEq, Repr

def Resource.text : Resource → Text
  | .inventories => "kollectinventories"
  | .targets => "kollecttargets"

/- What an access review is about. -/
structure AuthScope where
  namespace_ : Text
  name : Text
  verb : Verb
  resource : Resource
deriving DecidableEq

def inventoryAuthScope (r : Request) : AuthScope where
  namespace_ := (requestScope r).1
  name := (requestScope r).2
  verb := if (requestScope r).2 ≠ [] then .get else .list
  resource := .inventories

/- The endpoints that list the status of custom resources. -/
def statusTargetsPath : Text := "/v1alpha1/status/targets"

def statusInventoriesPath : Text := "/v1alpha1/status/inventories"

def requestAuthScope (r : Request) : AuthScope :=
  if statusTargetsPath.isPrefixOf r.path then
    ⟨Text.trimSpace (r.get "namespace"), [], .list, .targets⟩
  else if statusInventoriesPath.isPrefixOf r.path then
    ⟨Text.trimSpace (r.get "namespace"), [], .list, .inventories⟩
  else inventoryAuthScope r

/- The hash of the token, and the scope. -/
def authCacheKey (tokenHash : Text) (scope : AuthScope) : Text :=
  tokenHash ++ '|' :: (scope.verb.text ++ '|' ::
    (scope.namespace_ ++ '|' :: (scope.name ++ ':' :: scope.resource.text)))

----
-- The Middleware
----

structure UserInfo where
  username : Text
  groups : List Text

/- The reviews that the API server was asked for. -/
inductive Review where
  | token (time : Int) (token : Text) (user : UserInfo)
  | access (time : Int) (user : UserInfo) (scope : AuthScope) (allowed : Bool)

structure AuthCacheEntry where
  allowed : Bool
  expiresAt : Int

/-
  A request at a time. `user` is what a review of its token would find, if it finds anybody;
  `access` is the answer to an access review, if there is one.
-/
structure Call where
  request : Request
  now : Int
  user : Option UserInfo
  access : Option Bool

/-
  The cache, the reviews so far, and the requests that reached the handler, each with the reviews
  before it.
-/
structure AuthState where
  items : GoMap Text AuthCacheEntry
  reviews : List Review
  served : List (Call × List Review)

namespace AuthState

def start : AuthState := ⟨∅, [], []⟩

def serve (s : AuthState) (call : Call) : AuthState :=
  { s with served := (call, s.reviews) :: s.served }

/- A cached answer that has not expired. -/
def cached (s : AuthState) (key : Text) (now : Int) : Option Bool :=
  match s.items.lookup key with
  | none => none
  | some entry => if entry.expiresAt < now then none else some entry.allowed

/- Without a lifetime there is no cache. -/
def remember (s : AuthState) (ttl : Int) (key : Text) (now : Int) (allowed : Bool) : AuthState :=
  if ttl ≤ 0 then s
  else { s with items := s.items.insert key ⟨allowed, now + ttl⟩ }

end AuthState

/- The settings: whether access is reviewed, and the lifetime. -/
structure AuthConfig where
  requireInventoryGet : Bool
  cacheTTL : Int

/- One request, in the mode `kubernetes`. -/
def middleware (hash : Text → Text) (cfg : AuthConfig) (s : AuthState) (call : Call) : AuthState :=
  match bearerToken call.request.authorization with
  | .error _ => s
  | .ok token =>
    let scope := requestAuthScope call.request
    let key := authCacheKey (hash token) scope
    match s.cached key call.now with
    | some allowed =>
      if cfg.requireInventoryGet ∧ ¬ allowed then s
      else s.serve call
    | none =>
      match call.user with
      | none => s
      | some user =>
        let s := { s with reviews := .token call.now token user :: s.reviews }
        if cfg.requireInventoryGet then
          match call.access with
          | none => s
          | some allowed =>
            let s := { s with reviews := .access call.now user scope allowed :: s.reviews }
            let s := s.remember cfg.cacheTTL key call.now allowed
            if allowed then s.serve call else s
        else (s.remember cfg.cacheTTL key call.now true).serve call

----
-- What A Review Covers
----

/- An endpoint of the inventory, or a watch of it. -/
def IsInventoryRequest (r : Request) : Prop :=
  statusTargetsPath.isPrefixOf r.path = false ∧ statusInventoriesPath.isPrefixOf r.path = false

/- The names of the scope are empty, or names of objects. -/
def NamedScope (scope : AuthScope) : Prop :=
  (scope.namespace_ = [] ∨ isDnsLabel scope.namespace_ = true) ∧
    (scope.name = [] ∨ isDnsSubdomain scope.name = true)

/-
  The row belongs to a target of the reviewed namespace, where a list or a get of the named
  inventory was reviewed; or a list over all namespaces was.
-/
def Covers (r : Request) (scope : AuthScope) (row : Item) : Prop :=
  scope.resource = .inventories ∧ (row.targetNamespace = scope.namespace_ ∧
        (scope.verb = .list ∨ scope.name = (requestScope r).2) ∨
      scope.verb = .list ∧ scope.namespace_ = [])

/-
  The token was reviewed and the access of its user allowed, not longer ago than a cached answer may
  live, for a scope that covers all rows which the handler finds in any content of the store.
-/
def Justified (sha : Digest) (cfg : AuthConfig) (call : Call) (reviews : List Review) : Prop :=
  ∃ token time user scope, bearerToken call.request.authorization = .ok token ∧
    Review.token time token user ∈ reviews ∧ Review.access time user scope true ∈ reviews ∧
    call.now ≤ time + max cfg.cacheTTL 0 ∧ ∀ history : List Store.Mutation,
      ∀ row ∈ (buildSummary sha (Run.exec Store.mutate .empty history)
        (parseListFilter call.request)).items, Covers call.request scope row

/- An inventory is named together with its namespace. -/
def NamesScope (r : Request) : Prop := (requestScope r).1 ≠ [] ∨ (requestScope r).2 = []

instance (r : Request) : Decidable (NamesScope r) := inferInstanceAs (Decidable (_ ∨ _))

/- Whenever the request reaches the handler, after any history of requests, it is justified. -/
def Covered (sha : Digest) (hash : Text → Text) (r : Request) : Prop :=
  ∀ ttl (calls : List Call), (∀ call ∈ calls, NamedScope (requestAuthScope call.request)) →
    ∀ call reviews, (call, reviews) ∈ (Run.exec (middleware hash ⟨true, ttl⟩) .start calls).served →
      call.request = r → Justified sha ⟨true, ttl⟩ call reviews

----
-- Cache Keys
----

theorem notMem_of_isDnsLabel {c : Char} (hC : isDnsChar c = false) {s : Text}
    (hS : s = [] ∨ isDnsLabel s = true) : c ∉ s := by
  intro hMem
  rcases hS with hNil | hLabel
  · rw [hNil] at hMem
    cases hMem
  · rw [(isDnsLabel_mem hLabel).2 c hMem] at hC
    cases hC

theorem colon_notMem_of_isDnsSubdomain {s : Text} (hS : s = [] ∨ isDnsSubdomain s = true) :
    ':' ∉ s := by
  intro hMem
  rcases hS with hNil | hName
  · rw [hNil] at hMem
    cases hMem
  · rcases (isDnsSubdomain_mem hName).2 ':' hMem with hC | hC
    · revert hC
      decide
    · revert hC
      decide

theorem bar_notMem_verb (verb : Verb) : '|' ∉ verb.text := by
  cases verb with
  | get => decide
  | list => decide

theorem verb_text_inj {verb verb' : Verb} (hEq : verb.text = verb'.text) : verb = verb' := by
  revert hEq
  cases verb <;> cases verb' <;> decide

theorem resource_text_inj {resource resource' : Resource} (hEq : resource.text = resource'.text) :
    resource = resource' := by
  revert hEq
  cases resource <;> cases resource' <;> decide

/- The key of a cached answer tells token and scope. -/
theorem authCacheKey_inj {hashed hashed' : Text} (hBar : '|' ∉ hashed)
    (hBar' : '|' ∉ hashed') {scope scope' : AuthScope}
    (hNamed : NamedScope scope) (hNamed' : NamedScope scope')
    (hEq : authCacheKey hashed scope = authCacheKey hashed' scope') :
    hashed = hashed' ∧ scope = scope' := by
  unfold authCacheKey at hEq
  rw [Text.append_sep_inj hBar hBar', Text.append_sep_inj (bar_notMem_verb _) (bar_notMem_verb _),
    Text.append_sep_inj (notMem_of_isDnsLabel (by decide) hNamed.1)
      (notMem_of_isDnsLabel (by decide) hNamed'.1),
    Text.append_sep_inj (colon_notMem_of_isDnsSubdomain hNamed.2)
      (colon_notMem_of_isDnsSubdomain hNamed'.2)] at hEq
  rcases hEq with ⟨hHash, hVerb, hNs, hName, hResource⟩
  refine ⟨hHash, ?_⟩
  rcases scope with ⟨ns, name, verb, resource⟩
  rcases scope' with ⟨ns', name', verb', resource'⟩
  dsimp only at hVerb hNs hName hResource
  rw [hNs, hName, verb_text_inj hVerb, resource_text_inj hResource]

----
-- Every Answer Is Vouched For
----

/- A review of the token and of the access, at one time. -/
structure Reviewed (reviews : List Review) (token : Text) (scope : AuthScope)
    (allowed : Bool) (time : Int) : Prop where
  both : ∃ user, Review.token time token user ∈ reviews ∧
    Review.access time user scope allowed ∈ reviews

theorem Reviewed.mono {reviews reviews' : List Review} {token : Text}
    {scope : AuthScope} {allowed : Bool} {time : Int}
    (hReviewed : Reviewed reviews token scope allowed time) (hSub : reviews ⊆ reviews') :
    Reviewed reviews' token scope allowed time := by
  rcases hReviewed.both with ⟨user, hToken, hAccess⟩
  exact ⟨⟨user, hSub hToken, hSub hAccess⟩⟩

/- What the cache and the handler rest on. -/
structure Vouched (hash : Text → Text) (ttl : Int) (s : AuthState) : Prop where
  items : ∀ key entry, s.items.lookup key = some entry → ∃ token scope time,
      key = authCacheKey (hash token) scope ∧ NamedScope scope ∧
      Reviewed s.reviews token scope entry.allowed time ∧ entry.expiresAt = time + max ttl 0
  served : ∀ call reviews, (call, reviews) ∈ s.served → ∃ token time,
      bearerToken call.request.authorization = .ok token ∧
      Reviewed reviews token (requestAuthScope call.request) true time ∧ call.now ≤ time + max ttl 0

namespace Vouched

variable {hash : Text → Text} {ttl : Int} {s : AuthState}

theorem review (hVouched : Vouched hash ttl s) (review : Review) :
    Vouched hash ttl { s with reviews := review :: s.reviews } where
  items key entry hLook := by
    rcases hVouched.items key entry hLook with
      ⟨token, scope, time, hKey, hNamed, hReviewed, hExpires⟩
    exact ⟨token, scope, time, hKey, hNamed, hReviewed.mono (List.subset_cons_self _ _), hExpires⟩
  served := hVouched.served

theorem remember (hVouched : Vouched hash ttl s) {token : Text}
    {scope : AuthScope} {now : Int} {allowed : Bool} (hNamed : NamedScope scope)
    (hReviewed : Reviewed s.reviews token scope allowed now) :
    Vouched hash ttl (s.remember ttl (authCacheKey (hash token) scope) now allowed) := by
  unfold AuthState.remember
  split_ifs with hOff
  · exact hVouched
  · refine ⟨?_, hVouched.served⟩
    intro key entry hLook
    rw [GoMap.lookup_insert_ite] at hLook
    split_ifs at hLook with hKey
    · cases hLook
      refine ⟨token, scope, now, hKey, hNamed, hReviewed, ?_⟩
      dsimp only
      omega
    · exact hVouched.items key entry hLook

theorem serve (hVouched : Vouched hash ttl s) {call : Call} {token : Text} {time : Int}
    (hToken : bearerToken call.request.authorization = .ok token)
    (hReviewed : Reviewed s.reviews token (requestAuthScope call.request) true time)
    (hFresh : call.now ≤ time + max ttl 0) : Vouched hash ttl (s.serve call) := by
  refine ⟨hVouched.items, ?_⟩
  intro call' reviews hMem
  rcases List.mem_cons.mp hMem with hNew | hOld
  · cases hNew
    exact ⟨token, time, hToken, hReviewed, hFresh⟩
  · exact hVouched.served call' reviews hOld

end Vouched

theorem reviews_remember (s : AuthState) (ttl : Int) (key : Text) (now : Int) (allowed : Bool) :
    (s.remember ttl key now allowed).reviews = s.reviews := by
  unfold AuthState.remember
  split_ifs
  · rfl
  · rfl

variable {hash : Text → Text}

theorem vouched_middleware (hInj : Function.Injective hash) (hPlain : ∀ s, '|' ∉ hash s) {ttl : Int}
    {s : AuthState} (hVouched : Vouched hash ttl s) {call : Call}
    (hNamed : NamedScope (requestAuthScope call.request)) :
    Vouched hash ttl (middleware hash ⟨true, ttl⟩ s call) := by
  unfold middleware
  cases hToken : bearerToken call.request.authorization with
  | error err => exact hVouched
  | ok token =>
    dsimp only
    cases hCached : s.cached
        (authCacheKey (hash token) (requestAuthScope call.request)) call.now with
    | some allowed =>
      dsimp only
      split_ifs with hDenied
      · exact hVouched
      · have hAllowed : allowed = true := by simpa using hDenied
        subst hAllowed
        unfold AuthState.cached at hCached
        cases hLook : s.items.lookup
            (authCacheKey (hash token) (requestAuthScope call.request)) with
        | none =>
          rw [hLook] at hCached
          cases hCached
        | some entry =>
          rw [hLook] at hCached
          dsimp only at hCached
          split_ifs at hCached with hExpired
          rcases hVouched.items _ entry hLook with
            ⟨token', scope, time, hKey, hScope, hReviewed, hExpires⟩
          rcases authCacheKey_inj (hPlain token)
            (hPlain token') hNamed hScope hKey with
            ⟨hHash, hSame⟩
          rw [Option.some.inj hCached, ← hSame, ← hInj hHash] at hReviewed
          exact hVouched.serve hToken hReviewed (by omega)
    | none =>
      cases call.user with
      | none => exact hVouched
      | some user =>
        dsimp only
        rw [if_pos rfl]
        have hFirst := hVouched.review (.token call.now token user)
        cases call.access with
        | none => exact hFirst
        | some allowed =>
          have hSecond := hFirst.review
            (.access call.now user (requestAuthScope call.request) allowed)
          have hReviewed : Reviewed
              (.access call.now user (requestAuthScope call.request) allowed ::
                .token call.now token user :: s.reviews)
              token (requestAuthScope call.request) allowed
              call.now :=
            ⟨⟨user, by simp, by simp⟩⟩
          have hKept := hSecond.remember hNamed hReviewed
          dsimp only
          split_ifs with hAllowed
          · subst hAllowed
            refine hKept.serve hToken ?_ (show call.now ≤ call.now + max ttl 0 by omega)
            rw [reviews_remember]
            exact hReviewed
          · exact hKept

theorem vouched_exec (hInj : Function.Injective hash) (hPlain : ∀ s, '|' ∉ hash s) {ttl : Int}
    {calls : List Call} (hNamed : ∀ call ∈ calls, NamedScope (requestAuthScope call.request)) :
    Vouched hash ttl (Run.exec (middleware hash ⟨true, ttl⟩) .start calls) := by
  have hStep : ∀ (s : AuthState) (call : Call), Vouched hash ttl s →
      NamedScope (requestAuthScope call.request) →
        Vouched hash ttl (middleware hash ⟨true, ttl⟩ s call) :=
    fun _ _ hVouched hCall => vouched_middleware hInj hPlain hVouched hCall
  have hStart : Vouched hash ttl .start := ⟨fun _ _ h => (nomatch h), fun _ _ h => (nomatch h)⟩
  exact Run.exec_invariant hStep hStart (Run.along_of_forall fun call hMem _ => hNamed call hMem)

----
-- What A Request Reads
----

variable {sha : Digest}

theorem mem_matching_of_mem_items {s : Store} {f : ListFilter} {row : Item}
    (hRow : row ∈ (buildSummary sha s f).items) : row ∈ matching s f := by
  unfold buildSummary at hRow
  unfold paginateItems at hRow
  dsimp only at hRow
  split_ifs at hRow
  all_goals first
    | cases hRow
    | exact List.mem_of_mem_drop (List.mem_of_mem_take hRow)

variable {r : Request}

theorem covers_of_namesScope (hInventory : IsInventoryRequest r) (hScope : NamesScope r)
    (history : List Store.Mutation) {row : Item} (hRow : row ∈ (buildSummary sha
      (Run.exec Store.mutate .empty history)
      (parseListFilter r)).items) : Covers r (requestAuthScope r) row := by
  have hAuth : requestAuthScope r = inventoryAuthScope r := by
    unfold requestAuthScope
    rw [hInventory.1, hInventory.2]
    rfl
  rw [hAuth]
  refine ⟨rfl, ?_⟩
  by_cases hNs : (requestScope r).1 = []
  · have hName : (requestScope r).2 = [] := by
      rcases hScope with hNe | hNone
      · exact absurd hNs hNe
      · exact hNone
    refine .inr ⟨?_, hNs⟩
    unfold inventoryAuthScope
    rw [hName]
    rfl
  · -- only the shard of the namespace is read
    have hMem := mem_matching_of_mem_items hRow
    unfold matching filterItems at hMem
    rw [collectItems_eq] at hMem
    rcases Store.mem_summary.mp (List.mem_filter.mp hMem).1 with
      ⟨ns, name, uid, hAll | hSame, hFound⟩
    · exact absurd hAll hNs
    · have hFiled := Store.filed_exec history ns name uid row hFound
      exact .inl ⟨hFiled.1.trans hSame, .inr rfl⟩

/- A request that names its scope is justified. -/
theorem covered_of_namesScope (hInj : Function.Injective hash) (hPlain : ∀ s, '|' ∉ hash s)
    (hInventory : IsInventoryRequest r) (hScope : NamesScope r) : Covered sha hash r := by
  intro ttl calls hNamed call reviews hServed hRequest
  subst hRequest
  rcases (vouched_exec hInj hPlain hNamed).served call reviews
    hServed with ⟨token, time, hToken, hReviewed, hFresh⟩
  rcases hReviewed.both with ⟨user, hByToken, hAccess⟩
  exact ⟨token, time, user, _, hToken, hByToken, hAccess, hFresh,
    fun history row hRow => covers_of_namesScope hInventory hScope history hRow⟩

----
-- An Inventory Without Its Namespace
----

/- A row of the namespace `n` that a filter selects. -/
def planted (f : ListFilter) (n : Nat) : Item :=
  ⟨['n'], f.target, [], f.name, f.group, f.version, f.kind, List.replicate n 'a', ∅⟩

def plantings (f : ListFilter) (n : Nat) : List Store.Mutation :=
  (List.range n).map fun i => .upsert (planted f i)

section Planted

variable {f : ListFilter}

theorem exec_plantings_succ (f : ListFilter) (n : Nat) :
    Run.exec Store.mutate .empty (plantings f (n + 1)) =
      (Run.exec Store.mutate .empty (plantings f n)).upsert (planted f n) := by
  unfold plantings
  rw [List.range_succ, List.map_append, Run.exec_append]
  rfl

theorem row?_plantings {i n : Nat} (hI : i < n) :
    (Run.exec Store.mutate .empty (plantings f n)).row? ['n']
      f.target (List.replicate i 'a') = some (planted f i) := by
  induction n with
  | zero => cases hI
  | succ n ih =>
    rw [exec_plantings_succ, Store.row?_upsert]
    by_cases hLast : i = n
    · subst hLast
      exact if_pos ⟨rfl, rfl, rfl⟩
    · rw [if_neg]
      · exact ih (by omega)
      · intro hKey
        have hLength := congrArg List.length hKey.2.2
        unfold planted at hLength
        rw [List.length_replicate, List.length_replicate] at hLength
        exact hLast hLength

theorem namespace_of_plantings {n : Nat} {ns name uid : Text} {row : Item}
    (hRow : (Run.exec Store.mutate .empty (plantings f n)).row? ns name uid = some row) :
    row.targetNamespace = ['n'] := by
  induction n with
  | zero => cases hRow
  | succ n ih =>
    rw [exec_plantings_succ, Store.row?_upsert] at hRow
    split_ifs at hRow
    · cases hRow
      rfl
    · exact ih hRow

theorem planted_matches (hNs : f.namespace_ = []) (n : Nat) :
    itemMatchesFilter (planted f n) f = true := by
  unfold itemMatchesFilter fieldMatches planted
  simp [hNs]

theorem le_length_matching_plantings (hNs : f.namespace_ = []) (n : Nat) :
    n ≤ (matching (Run.exec Store.mutate .empty (plantings f n)) f).length := by
  have hNodup : ((List.range n).map (planted f)).Nodup := by
    rw [List.nodup_map_iff_inj_on List.nodup_range]
    intro i _ j _ hEq
    have hUid := congrArg (fun row => row.uid.length) hEq
    unfold planted at hUid
    rw [List.length_replicate, List.length_replicate] at hUid
    exact hUid
  have hSub : (List.range n).map (planted f) ⊆
      matching (Run.exec Store.mutate .empty (plantings f n))
        f := by
    intro row hRow
    rcases List.mem_map.mp hRow with ⟨i, hI, hEq⟩
    subst hEq
    unfold matching filterItems
    rw [collectItems_eq, List.mem_filter, Store.mem_summary]
    exact ⟨⟨_, _, _, .inl hNs, row?_plantings (List.mem_range.mp hI)⟩, planted_matches hNs i⟩
  have hLe := (List.subperm_of_subset hNodup hSub).length_le
  rw [List.length_map, List.length_range] at hLe
  exact hLe

theorem exists_item_of_offset_lt
    (sha : Digest) {s : Store} (hOffset : f.offset < (matching s f).length) :
    ∃ row, row ∈ (buildSummary sha s f).items := by
  apply List.exists_mem_of_ne_nil
  rw [← List.length_pos_iff]
  have hLimit : ∀ limit : Int, 0 < pageLimit limit := by
    intro limit
    unfold pageLimit defaultPageLimit maxPageLimit
    split_ifs
    · omega
    · omega
  have hItems : filterItems (collectItems s f) f = matching s f := rfl
  unfold buildSummary
  rw [hItems]
  generalize matching s f = items at hOffset
  unfold paginateItems
  dsimp only
  rw [if_neg (by omega)]
  rw [take_drop_min, List.length_take, List.length_drop]
  have hPos := hLimit (if f.limit ≤ 0 then (defaultPageLimit : Int) else f.limit)
  omega

end Planted

/- A request for an inventory of any namespace is not. -/
theorem namesScope_of_covered {token : Text} (hToken : bearerToken r.authorization = .ok token)
    (hInventory : IsInventoryRequest r) (hNamed : NamedScope (requestAuthScope r))
    (hCovered : Covered sha hash r) : NamesScope r := by
  by_contra hNone
  have hNs : (requestScope r).1 = [] := by
    by_contra hNe
    exact hNone (.inl hNe)
  have hName : (requestScope r).2 ≠ [] := fun hNil => hNone (.inr hNil)
  have hAuth : requestAuthScope r = inventoryAuthScope r := by
    unfold requestAuthScope
    rw [hInventory.1, hInventory.2]
    rfl
  -- the first request of all, by a user who may get the name
  let call : Call := ⟨r, 0, some ⟨[], []⟩, some true⟩
  have hServed : (call, [.access 0 ⟨[], []⟩ (requestAuthScope r) true, .token 0 token ⟨[], []⟩]) ∈
      (Run.exec (middleware hash ⟨true, 0⟩) .start [call]).served := by
    rw [Run.exec_cons, Run.exec_nil]
    unfold middleware
    dsimp only [call]
    rw [hToken]
    exact List.mem_cons_self
  rcases hCovered 0 [call] (by simpa [call] using hNamed) call _
    hServed rfl with
    ⟨token', time, user, scope, -, -, hAccess, -, hCovers⟩
  have hScope : scope = inventoryAuthScope r := by
    rw [← hAuth]
    simp only [List.mem_cons, Review.access.injEq, reduceCtorEq,
      List.not_mem_nil, or_false] at hAccess
    exact hAccess.2.2.1
  have hFilterNs : (parseListFilter r).namespace_ = [] := hNs
  have hMany := le_length_matching_plantings hFilterNs ((parseListFilter r).offset + 1)
  rcases exists_item_of_offset_lt sha hMany with ⟨row, hRow⟩
  have hCover := hCovers (plantings (parseListFilter r) ((parseListFilter r).offset + 1)) row hRow
  rw [hScope] at hCover
  -- its namespace is `n`, the reviewed one is empty
  have hMem := mem_matching_of_mem_items hRow
  unfold matching filterItems at hMem
  rw [collectItems_eq] at hMem
  rcases Store.mem_summary.mp (List.mem_filter.mp hMem).1 with ⟨ns, name, uid, -, hFound⟩
  have hPlanted := namespace_of_plantings hFound
  rcases hCover.2 with ⟨hSame, -⟩ | ⟨hList, -⟩
  · rw [hPlanted] at hSame
    exact absurd (hSame.trans hNs) (List.cons_ne_nil _ _)
  · unfold inventoryAuthScope at hList
    rw [if_pos hName] at hList
    cases hList

/- A request for the rows of an inventory `x`. -/
def requestFor (namespace_ : Text) : Request where
  path := ['/']
  query := [("namespace", namespace_), ("inventory", ['x'])]
  pathNamespace := []
  pathName := []
  authorization := "Bearer t"

end Inventory
end Kollect
