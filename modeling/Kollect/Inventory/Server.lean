import Kollect.Collect.Snapshot
import Kollect.Export.Envelope

/-
  The read API of the inventory (`inventory/server.go`, `inventory/filter.go`).

  A request is answered from a snapshot of the store that is taken for it; a page is cut from that
  snapshot. The order of a snapshot is the order of Go maps, so two requests may see the same rows
  in two orders. A page with a row that cannot be encoded is answered with an error.

  Key theorems include:
    * `pagesComplete_iff`
    * `second_page_repeats_first`
-/

namespace Kollect
namespace Inventory

open Collect Export

----
-- Requests
----

/- What the handlers read of a request. -/
structure Request where
  path : Text
  query : List (Text × Text)
  pathNamespace : Text
  pathName : Text
  authorization : Text

/- The first value of a query parameter; empty if missing. -/
def Request.get (r : Request) (key : Text) : Text := (r.query.lookup key).getD []

structure ListFilter where
  namespace_ : Text
  inventory : Text
  target : Text
  group : Text
  version : Text
  kind : Text
  name : Text
  limit : Int
  offset : Nat

def maxInt : Int := 2 ^ 63 - 1

/- `strconv.Atoi` without its error: digits behind a sign. -/
def atoi (s : Text) : Int :=
  let (negative, digits) :=
    match s with
    | '-' :: digits => (true, digits)
    | '+' :: digits => (false, digits)
    | digits => (false, digits)
  if digits = [] ∨ ¬ digits.all Char.isDigit then 0
  else
    let n : Int := digits.foldl (fun n c => 10 * n + (c.toNat - 48)) 0
    if negative then max (-n) (-maxInt - 1) else min n maxInt

/- The namespace and the inventory; the path comes first. -/
def requestScope (r : Request) : Text × Text :=
  (if r.pathNamespace ≠ [] then Text.trimSpace r.pathNamespace
    else Text.trimSpace (r.get "namespace"),
    if r.pathName ≠ [] then Text.trimSpace r.pathName
    else Text.trimSpace (r.get "inventory"))

def parseListFilter (r : Request) : ListFilter where
  namespace_ := (requestScope r).1
  inventory := (requestScope r).2
  target := Text.trimSpace (r.get "target")
  group := Text.trimSpace (r.get "group")
  version := Text.trimSpace (r.get "version")
  kind := Text.trimSpace (r.get "kind")
  name := Text.trimSpace (r.get "name")
  limit := atoi (Text.trimSpace (r.get "limit"))
  offset := (atoi (Text.trimSpace (r.get "offset"))).toNat

----
-- Answers
----

def defaultPageLimit : Nat := 500

def maxPageLimit : Nat := 5000

/- A field that is not named matches everything. -/
def fieldMatches (wanted value : Text) : Bool := wanted == [] || value == wanted

def itemMatchesFilter (item : Item) (f : ListFilter) : Bool :=
  fieldMatches f.target item.targetName && fieldMatches f.group item.group &&
    fieldMatches f.version item.version && fieldMatches f.kind item.kind &&
    fieldMatches f.name item.name &&
    (f.namespace_ == [] || item.namespace_ == f.namespace_ || item.targetNamespace == f.namespace_)

def filterItems (items : List Item) (f : ListFilter) : List Item :=
  items.filter (itemMatchesFilter · f)

structure Pagination where
  limit : Nat
  offset : Nat
  total : Nat
  hasMore : Bool

/- The limit of a page, kept within its bounds. -/
def pageLimit (limit : Int) : Nat :=
  if limit ≤ 0 then defaultPageLimit
  else min limit.toNat maxPageLimit

def paginateItems (items : List Item) (limit : Int)
    (offset : Nat) : List Item × Option Pagination :=
  let total := items.length
  if total = 0 then ([], none)
  else
    let limit := pageLimit limit
    let offset := min offset total
    let stop := min (offset + limit) total
    ((items.drop offset).take (stop - offset), some ⟨limit, offset, total, decide (stop < total)⟩)

structure InventorySummary where
  itemCount : Nat
  namespace_ : Text
  inventory : Text
  items : List Item
  pagination : Option Pagination
  checksum : Text

/- The rows in which a request looks for its items. -/
def collectItems (s : Store) (f : ListFilter) : List Item :=
  if f.namespace_ = [] ∧ f.inventory = [] then s.summary []
  else s.summary f.namespace_

variable (sha : Digest) (s : Store) (f : ListFilter)

def buildSummary : InventorySummary :=
  let items := filterItems (collectItems s f) f
  let limit : Int := if f.limit ≤ 0 then defaultPageLimit else f.limit
  let (paged, pagination) := paginateItems items limit f.offset
  let pagination :=
    if 0 < items.length ∧ pagination.isNone then some ⟨items.length, 0, items.length, false⟩
    else pagination
  { itemCount := paged.length
    namespace_ := f.namespace_
    inventory := f.inventory
    items := paged
    pagination := pagination
    checksum := (tryItemsFingerprint sha paged).toOption.getD [] }

def statusInternalServerError : Nat := 500

/- The answer of the handler, or a status with its text. Only the rows may fail to be encoded. -/
def handleInventory : Except (Nat × Text) InventorySummary :=
  let summary := buildSummary sha s f
  if summary.items.any fun item => (itemJson item).unsupported?.isSome then
    .error (statusInternalServerError, "encode failed")
  else .ok summary

----
-- Pages
----

def InventorySummary.hasMore (summary : InventorySummary) : Bool :=
  match summary.pagination with
  | none => false
  | some pagination => pagination.hasMore

/- A client that asks for page after page, from a first one, as long as it gets answers. -/
inductive Fetches (serve : Nat → Except (Nat × Text) InventorySummary) : Nat → List Item → Prop
  | last {k : Nat} {summary : InventorySummary} (hAnswer : serve k = .ok summary)
      (hLast : summary.hasMore = false) : Fetches serve k summary.items
  | more {k : Nat} {summary : InventorySummary} {rest : List Item} (hAnswer : serve k = .ok summary)
      (hMore : summary.hasMore = true)
      (hRest : Fetches serve (k + 1) rest) : Fetches serve k (summary.items ++ rest)

/- All items that a filter selects. -/
def matching (s : Store) (f : ListFilter) : List Item := filterItems (collectItems s f) f

def page (f : ListFilter) (size k : Nat) : ListFilter :=
  { f with limit := size, offset := k * size }

/-
  Whatever order the maps are walked in for each request, the client comes to an end and has every
  item once.
-/
def PagesComplete (size : Nat) : Prop :=
  ∀ orders : Nat → Store, (∀ k, s.SameRows (orders k)) → ∃ items,
      Fetches (fun k => handleInventory sha (orders k) (page f size k)) 0 items ∧
      items.Perm (matching s f)

section Pages

variable {sha : Digest} {s : Store} {f : ListFilter} {size : Nat}

theorem collectItems_eq (s : Store) (f : ListFilter) :
    collectItems s f = s.summary f.namespace_ := by
  unfold collectItems
  split_ifs with hAll
  · rw [hAll.1]
  · rfl

theorem perm_matching {s' : Store} (hFiled : s.Filed) (hSame : s.SameRows s') (f : ListFilter) :
    (matching s f).Perm (matching s' f) := by
  unfold matching filterItems
  rw [collectItems_eq, collectItems_eq]
  exact (Store.perm_summary hFiled hSame _).filter _

theorem matching_reversed (s : Store) (f : ListFilter) :
    matching s.reversed f = (matching s f).reverse := by
  unfold matching filterItems
  rw [collectItems_eq, collectItems_eq, Store.summary_reversed, List.filter_reverse]

theorem nodup_matching (hFiled : s.Filed) (f : ListFilter) : (matching s f).Nodup := by
  unfold matching filterItems
  rw [collectItems_eq]
  exact (Store.nodup_summary hFiled _).filter _

theorem take_drop_min {α : Type} (xs : List α) (offset limit : Nat) :
    (xs.drop (min offset xs.length)).take
        (min (min offset xs.length + limit) xs.length - min offset xs.length) =
      (xs.drop offset).take limit := by
  have hDrop : xs.drop (min offset xs.length) = xs.drop offset := by
    rcases Nat.le_total offset xs.length with hIn | hOut
    · rw [Nat.min_eq_left hIn]
    · rw [Nat.min_eq_right hOut, List.drop_length, List.drop_of_length_le hOut]
  rw [hDrop, List.take_eq_take_iff, List.length_drop]
  omega

theorem pageLimit_size (hSize : 1 ≤ size) (hMax : size ≤ maxPageLimit) : pageLimit size = size := by
  unfold pageLimit
  rw [if_neg (by omega), Int.toNat_natCast, Nat.min_eq_left hMax]

theorem page_spec (sha : Digest) (s : Store) (f : ListFilter)
    (hSize : 1 ≤ size) (hMax : size ≤ maxPageLimit) (k : Nat) :
    (buildSummary sha s (page f size k)).items = ((matching s f).drop (k * size)).take size ∧
      (buildSummary sha s (page f size k)).hasMore =
        decide ((k + 1) * size < (matching s f).length) := by
  have hItems : filterItems (collectItems s (page f size k)) (page f size k) = matching s f := rfl
  unfold buildSummary InventorySummary.hasMore
  rw [hItems]
  have hLimit : (page f size k).limit = size := rfl
  have hOffset : (page f size k).offset = k * size := rfl
  rw [hLimit, hOffset, if_neg (by omega)]
  generalize matching s f = items
  unfold paginateItems
  dsimp only
  rw [pageLimit_size hSize hMax]
  by_cases hEmpty : items.length = 0
  · rw [List.length_eq_zero_iff] at hEmpty
    subst hEmpty
    simp
  · rw [if_neg hEmpty]
    refine ⟨take_drop_min items (k * size) size, ?_⟩
    rw [if_neg (by simp)]
    rw [decide_eq_decide, Nat.succ_mul]
    omega

/- An answer is the page, and all its rows can be encoded. -/
theorem handleInventory_eq_ok {summary : InventorySummary} : handleInventory sha s f = .ok summary ↔
      (∀ item ∈ (buildSummary sha s f).items, (itemJson item).unsupported? = none) ∧
        summary = buildSummary sha s f := by
  unfold handleInventory
  dsimp only
  split_ifs with hSome
  · refine iff_of_false nofun ?_
    rintro ⟨hAll, -⟩
    rcases List.any_eq_true.mp hSome with ⟨item, hItem, hIs⟩
    rw [hAll item hItem] at hIs
    cases hIs
  · rw [Bool.not_eq_true, List.any_eq_false] at hSome
    rw [Except.ok.injEq, eq_comm]
    refine (and_iff_right fun item hItem => ?_).symm
    exact Option.not_isSome_iff_eq_none.mp (hSome item hItem)

/- When everything fits on the first page, its rows are the items. -/
theorem first_page (sha : Digest) (s : Store) (f : ListFilter) (hSize : 1 ≤ size)
    (hMax : size ≤ maxPageLimit) (hOne : (matching s f).length ≤ size) :
    (buildSummary sha s (page f size 0)).items = matching s f ∧
      (buildSummary sha s (page f size 0)).hasMore = false := by
  rcases page_spec sha s f hSize hMax 0 with ⟨hItems, hMore⟩
  rw [decide_eq_false (by omega)] at hMore
  rw [Nat.zero_mul, List.drop_zero, List.take_of_length_le hOne] at hItems
  exact ⟨hItems, hMore⟩

theorem pagesComplete_of_le (hFiled : s.Filed) (hSize : 1 ≤ size) (hMax : size ≤ maxPageLimit)
    (hOne : (matching s f).length ≤ size) :
    PagesComplete sha s f size ↔ ∀ item ∈ matching s f, (itemJson item).unsupported? = none := by
  constructor
  · intro hComplete
    rcases hComplete (fun _ => s) (fun _ _ _ _ => rfl) with ⟨items, hFetches, -⟩
    rcases first_page sha s f hSize hMax hOne with ⟨hItems, hMore⟩
    cases hFetches with
    | last hAnswer hLast | more hAnswer hHas hRest =>
      exact hItems ▸ (handleInventory_eq_ok.mp hAnswer).1
  · intro hWritable orders hOrders
    have hPerm := perm_matching hFiled (hOrders 0) f
    rcases first_page sha (orders 0) f hSize hMax (hPerm.length_eq ▸ hOne) with ⟨hItems, hMore⟩
    have hAnswer : handleInventory sha (orders 0) (page f size 0) = .ok _ :=
      handleInventory_eq_ok.mpr
        ⟨fun item hItem => hWritable item (hPerm.mem_iff.mpr (hItems ▸ hItem)), rfl⟩
    exact ⟨_, .last hAnswer hMore, hItems ▸ hPerm.symm⟩

/- The last request sees the rows in the opposite order. -/
def turnedAt (s : Store) (turn k : Nat) : Store := if k < turn then s else s.reversed

theorem sameRows_turnedAt (s : Store) (turn k : Nat) : s.SameRows (turnedAt s turn k) := by
  unfold turnedAt
  split_ifs
  · exact fun _ _ _ => rfl
  · exact s.sameRows_reversed

theorem length_matching_turnedAt (s : Store) (f : ListFilter) (turn k : Nat) :
    (matching (turnedAt s turn k) f).length = (matching s f).length := by
  unfold turnedAt
  split_ifs
  · rfl
  · rw [matching_reversed, List.length_reverse]

/- The first item comes again at the end of the last page. -/
theorem first_mem_of_fetches {first : Item} {others : List Item}
    (hMatching : matching s f = first :: others)
    (hSize : 1 ≤ size) (hMax : size ≤ maxPageLimit) {turn : Nat}
    (hBegins : turn * size < (matching s f).length)
    (hEnds : (matching s f).length ≤ (turn + 1) * size) {k : Nat} {items : List Item}
    (hFetches : Fetches (fun k => handleInventory sha (turnedAt s turn k) (page f size k)) k items)
    (hK : k ≤ turn) : first ∈ items := by
  induction hFetches with
  | @last k summary hAnswer hLast =>
    obtain rfl := (handleInventory_eq_ok.mp hAnswer).2
    rcases page_spec sha (turnedAt s turn k) f hSize hMax k with ⟨hItems, hMore⟩
    rw [hMore, length_matching_turnedAt, decide_eq_false_iff_not] at hLast
    have hTurn : k = turn := by
      by_contra hNe
      have hNext : (k + 1) * size ≤ turn * size := Nat.mul_le_mul_right _ (by omega)
      omega
    subst hTurn
    have hOrder : matching (turnedAt s k k) f = others.reverse ++ [first] := by
      unfold turnedAt
      rw [if_neg (Nat.lt_irrefl k), matching_reversed, hMatching, List.reverse_cons]
    have hLength : others.reverse.length + 1 = (matching s f).length := by
      rw [hMatching, List.length_reverse, List.length_cons]
    rw [hItems, hOrder, List.drop_append_of_le_length (by omega),
      List.take_of_length_le
        (by
          simp only [List.length_append, List.length_drop, List.length_singleton]
          rw [Nat.succ_mul] at hEnds
          omega)]
    exact List.mem_append_right _ (List.mem_singleton_self _)
  | @more k summary rest hAnswer hMore hRest ih =>
    obtain rfl := (handleInventory_eq_ok.mp hAnswer).2
    rcases page_spec sha (turnedAt s turn k) f hSize hMax k with ⟨-, hMore'⟩
    rw [hMore', length_matching_turnedAt, decide_eq_true_iff] at hMore
    have hNe : k ≠ turn := by
      intro hEq
      rw [hEq] at hMore
      omega
    exact List.mem_append_right _ (ih (by omega))

/- Two pages can be cut from two orders. -/
theorem not_pagesComplete (hFiled : s.Filed) (hSize : 1 ≤ size) (hMax : size ≤ maxPageLimit)
    (hMany : size < (matching s f).length) : ¬ PagesComplete sha s f size := by
  intro hComplete
  cases hMatching : matching s f with
  | nil =>
    rw [hMatching] at hMany
    cases hMany
  | cons first others =>
    -- the number of the last page
    have hDiv := Nat.div_add_mod ((matching s f).length - 1) size
    have hMod := Nat.mod_lt ((matching s f).length - 1) hSize
    generalize hTurn : ((matching s f).length - 1) / size = turn at hDiv
    rw [Nat.mul_comm] at hDiv
    have hPos : 0 < turn := by
      rw [← hTurn]
      exact Nat.div_pos (by omega) hSize
    rcases hComplete (turnedAt s turn) (sameRows_turnedAt s turn) with ⟨items, hFetches, hPerm⟩
    have hOnce : items.count first ≤ 1 := by
      rw [hPerm.count_eq]
      exact List.nodup_iff_count_le_one.mp (nodup_matching hFiled f) first
    rcases page_spec sha (turnedAt s turn 0) f hSize hMax 0 with ⟨hItems, hMore⟩
    cases hFetches with
    | last hAnswer hLast =>
      obtain rfl := (handleInventory_eq_ok.mp hAnswer).2
      rw [hMore, length_matching_turnedAt, decide_eq_false_iff_not] at hLast
      omega
    | more hAnswer hHas hRest =>
      obtain rfl := (handleInventory_eq_ok.mp hAnswer).2
      have hAgain := first_mem_of_fetches hMatching hSize hMax
        (by omega) (by rw [Nat.succ_mul]; omega) hRest hPos
      have hFirst : first ∈ (buildSummary sha (turnedAt s turn 0) (page f size 0)).items := by
        rw [hItems, Nat.zero_mul, List.drop_zero]
        unfold turnedAt
        rw [if_pos hPos, hMatching]
        rw [List.take_cons hSize]
        exact List.mem_cons_self
      rw [List.count_append] at hOnce
      have hOne := List.count_pos_iff.mpr hFirst
      have hTwo := List.count_pos_iff.mpr hAgain
      omega

end Pages

/-
  The pages are complete for every order of the maps exactly when everything fits on one page and
  every item can be encoded.
-/
theorem pagesComplete_iff (sha : Digest) (history : List Store.Mutation)
    (f : ListFilter) {size : Nat} (hSize : 1 ≤ size) (hMax : size ≤ maxPageLimit) :
    let s := Run.exec Store.mutate .empty history
    PagesComplete sha s f size ↔ (matching s f).length ≤ size ∧
      ∀ item ∈ matching s f, (itemJson item).unsupported? = none := by
  intro s
  have hFiled : s.Filed := Store.filed_exec history
  by_cases hOne : (matching s f).length ≤ size
  · rw [and_iff_right hOne]
    exact pagesComplete_of_le hFiled hSize hMax hOne
  · exact iff_of_false (not_pagesComplete hFiled hSize hMax (by omega)) fun hBoth => hOne hBoth.1

def anyFilter : ListFilter := ⟨[], [], [], [], [], [], [], 0, 0⟩

def rowOf (uid : Text) : Item := ⟨['n'], ['t'], ['n'], uid, [], ['v'], ['k'], uid, ∅⟩

def twoRows : List Store.Mutation := [.upsert (rowOf ['a']), .upsert (rowOf ['b'])]

theorem matching_twoRows :
    matching (Run.exec Store.mutate .empty twoRows) anyFilter = [rowOf ['b'], rowOf ['a']] := by
  rfl

/- Two rows on a page of two are listed completely. -/
theorem two_rows_on_one_page :
    PagesComplete paddedDigest (Run.exec Store.mutate .empty twoRows) anyFilter 2 := by
  have hIff := pagesComplete_iff paddedDigest twoRows anyFilter (show 1 ≤ 2 by omega)
    (show 2 ≤ maxPageLimit by unfold maxPageLimit; omega)
  dsimp only at hIff
  rw [hIff, matching_twoRows]
  exact ⟨le_rfl, List.forall_mem_cons.mpr ⟨rfl, List.forall_mem_singleton.mpr rfl⟩⟩

/-
  With one row on a page, the second request may walk over the map from its other end. It answers
  with the row of the first page and says that there is no more.
-/
theorem second_page_repeats_first :
    let s := Run.exec Store.mutate .empty twoRows
    ∃ first second, s.SameRows s.reversed ∧
      matching s anyFilter = [rowOf ['b'], rowOf ['a']] ∧
      handleInventory paddedDigest s (page anyFilter 1 0) = .ok first ∧
      first.items = [rowOf ['b']] ∧ first.hasMore = true ∧
      handleInventory paddedDigest s.reversed (page anyFilter 1 1) = .ok second ∧
      second.items = [rowOf ['b']] ∧ second.hasMore = false := by
  intro s
  have hMatching : matching s anyFilter = [rowOf ['b'], rowOf ['a']] := matching_twoRows
  have hMax : 1 ≤ maxPageLimit := by
    unfold maxPageLimit
    omega
  rcases page_spec paddedDigest s anyFilter le_rfl hMax 0 with ⟨hItems, hMore⟩
  rcases page_spec paddedDigest s.reversed anyFilter le_rfl hMax 1 with ⟨hItems', hMore'⟩
  rw [matching_reversed] at hItems' hMore'
  rw [hMatching] at hItems hMore hItems' hMore'
  have hRow : ∀ item ∈ [rowOf ['b']], (itemJson item).unsupported? = none :=
    List.forall_mem_singleton.mpr rfl
  exact ⟨_, _, s.sameRows_reversed, hMatching,
    handleInventory_eq_ok.mpr ⟨hItems ▸ hRow, rfl⟩, hItems, hMore,
    handleInventory_eq_ok.mpr ⟨hItems' ▸ hRow, rfl⟩, hItems', hMore'⟩

end Inventory
end Kollect
