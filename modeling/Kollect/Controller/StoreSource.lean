import Kollect.Collect.Store
import Kollect.Foundation.Run
import Mathlib.Logic.Function.Basic

/-
  The wakeups of inventories by the store: a mutation sends its namespace into a small channel
  without blocking (`notifyWatchers` of `internal/collect/store.go`), and one loop receives them,
  waits for a timer and enqueues the inventories of the namespaces it has seen
  (`controller/inventory_store_source.go`).

  A notification that finds the channel full is dropped.

  Key theorems include:
    * `StoreSource.settles_iff_onItsWay`
    * `StoreSource.requested_of_fresh`
    * `StoreSource.no_lost_wakeup_iff`
-/

namespace Kollect
namespace Controller

open Collect

----
-- Channel And Loop
----

def namespaceChannelSize : Nat := 8

/-
  The channel, the loop's pending set and timer, the namespaces its flush has still to enqueue, and
  the requests added so far. `notifying` holds the namespaces of mutations that have not called
  `notifyWatchers` yet.

  `stale` marks the namespaces mutated since their inventories were last enqueued; no step reads it.
-/
structure StoreSource where
  store : Store
  notifying : List Text
  channel : List Text
  pending : List Text
  timer : Bool
  flushing : List Text
  requests : List (Text × Text)
  stale : Text → Bool

/-
  A mutation, its notification, and the steps of the loop: a receive, the timer, and the inventories
  of one namespace as the flush lists them.
-/
inductive SourceLabel where
  | mutate (m : Store.Mutation)
  | notify (ns : Text)
  | receive
  | fire
  | enqueue (ns : Text) (inventories : List Text)

def SourceLabel.ofLoop : SourceLabel → Prop
  | .mutate _ => False
  | .notify _ => False
  | .receive => True
  | .fire => True
  | .enqueue _ _ => True

namespace StoreSource

/- The loop right after `SubscribeNamespaces`. -/
def start (store : Store) : StoreSource where
  store := store
  notifying := []
  channel := []
  pending := []
  timer := false
  flushing := []
  requests := []
  stale _ := false

/- A send that does not block. -/
def send (channel : List Text) (ns : Text) : List Text :=
  if channel.length < namespaceChannelSize then channel ++ [ns]
  else channel

def step (s : StoreSource) : SourceLabel → StoreSource
  | .mutate m =>
    { s with
      store := s.store.mutate m
      notifying := m.targetNamespace :: s.notifying
      stale := Function.update s.stale m.targetNamespace true }
  | .notify ns =>
    if ns ∈ s.notifying then
      { s with
        notifying := s.notifying.erase ns
        channel := send s.channel ns }
    else s
  | .receive =>
    match s.flushing, s.channel with
    | [], ns :: rest =>
      { s with
        channel := rest
        pending := s.pending.insert ns
        timer := true }
    | _, _ => s
  | .fire =>
    if s.flushing = [] ∧ s.timer = true then
      { s with
        pending := []
        timer := false
        flushing := s.pending }
    else s
  | .enqueue ns inventories =>
    if ns ∈ s.flushing then
      { s with
        flushing := s.flushing.erase ns
        requests := s.requests ++ inventories.map (fun inv => (ns, inv))
        stale := Function.update s.stale ns false }
    else s

def Drained (s : StoreSource) : Prop := s.channel = [] ∧ s.pending = [] ∧ s.flushing = []

/-
  However the loop goes on until it has drained, a namespace without a notification to come has had
  its inventories enqueued after its last mutation.
-/
def Settles (s : StoreSource) : Prop :=
  ∀ labels, (∀ l ∈ labels, SourceLabel.ofLoop l) → (Run.exec step s labels).Drained →
      ∀ ns, ns ∉ s.notifying → (Run.exec step s labels).stale ns = false

variable {s : StoreSource} {ns : Text}

/- A drained loop has enqueued what was notified. -/
theorem Settles.stale_eq_false (hSettles : s.Settles) (hDrained : s.Drained)
    (hNotify : ns ∉ s.notifying) : s.stale ns = false := by
  apply hSettles [] _ hDrained ns hNotify
  intro l hMem
  exact absurd hMem List.not_mem_nil

/- The loop has still to enqueue the namespace. -/
def Awaited (s : StoreSource) (ns : Text) : Prop :=
  ns ∈ s.channel ∨ ns ∈ s.pending ∨ ns ∈ s.flushing

/-
  A notification is sent, or it is not needed: another one of the namespace is to come, the loop has
  still to enqueue it, or has already done so since the mutation.
-/
def NotificationKept (s : StoreSource) : SourceLabel → Prop
  | .notify ns =>
    ns ∈ s.notifying → s.channel.length < namespaceChannelSize ∨ ns ∈ s.notifying.erase ns ∨
        s.Awaited ns ∨ s.stale ns = false
  | _ => True

----
-- Namespaces On Their Way
----

/- Every mutated namespace is still to be enqueued. -/
def OnItsWay (s : StoreSource) : Prop := ∀ ns, s.stale ns = true → ns ∈ s.notifying ∨ s.Awaited ns

/- Whatever the loop has received waits for a timer. -/
def TimerSet (s : StoreSource) : Prop := s.pending ≠ [] → s.timer = true

theorem step_receive {rest : List Text} (hFlushing : s.flushing = [])
    (hChannel : s.channel = ns :: rest) : s.step .receive =
      { s with channel := rest, pending := s.pending.insert ns, timer := true } := by
  simp only [step, hFlushing, hChannel]

theorem receive_cases (s : StoreSource) :
    s.step .receive = s ∨ ∃ ns rest, s.flushing = [] ∧ s.channel = ns :: rest := by
  cases hFlushing : s.flushing with
  | cons first others =>
    left
    simp only [step, hFlushing]
  | nil =>
    cases hChannel : s.channel with
    | nil =>
      left
      simp only [step, hFlushing, hChannel]
    | cons ns rest => exact Or.inr ⟨ns, rest, rfl, rfl⟩

theorem timerSet_step (s : StoreSource) (label : SourceLabel) (hTimer : s.TimerSet) :
    (s.step label).TimerSet := by
  cases label with
  | mutate m => exact hTimer
  | notify | enqueue =>
    simp only [step]
    split_ifs
    · exact hTimer
    · exact hTimer
  | receive =>
    rcases receive_cases s with hSame | ⟨ns, rest, hFlushing, hChannel⟩
    · rw [hSame]
      exact hTimer
    · rw [step_receive hFlushing hChannel]
      exact fun _ => rfl
  | fire =>
    simp only [step]
    split_ifs
    · exact fun hPending => absurd rfl hPending
    · exact hTimer

theorem onItsWay_loop (s : StoreSource) (label : SourceLabel) (hWay : s.OnItsWay)
    (hLoop : label.ofLoop) : (s.step label).OnItsWay := by
  cases label with
  | mutate | notify => exact hLoop.elim
  | receive =>
    rcases receive_cases s with hSame | ⟨ns, rest, hFlushing, hChannel⟩
    · rw [hSame]
      exact hWay
    · rw [step_receive hFlushing hChannel]
      intro other hStale
      rcases hWay other hStale with hNotify | hIn | hPending | hFlush
      · exact Or.inl hNotify
      · rw [hChannel] at hIn
        rcases List.mem_cons.mp hIn with hHead | hRest
        · right; right; left
          rw [hHead]
          exact List.mem_insert_self
        · exact Or.inr (Or.inl hRest)
      · right; right; left
        exact List.mem_insert_of_mem hPending
      · exact Or.inr (Or.inr (Or.inr hFlush))
  | fire =>
    simp only [step]
    split_ifs with hFire
    · intro other hStale
      rcases hWay other hStale with hNotify | hIn | hPending | hFlush
      · exact Or.inl hNotify
      · exact Or.inr (Or.inl hIn)
      · exact Or.inr (Or.inr (Or.inr hPending))
      · rw [hFire.1] at hFlush
        exact absurd hFlush List.not_mem_nil
    · exact hWay
  | enqueue ns inventories =>
    simp only [step]
    split_ifs with hMem
    · intro other hStale
      have hNe : other ≠ ns := by
        intro hEq
        dsimp only at hStale
        rw [hEq, Function.update_self] at hStale
        cases hStale
      dsimp only at hStale
      rw [Function.update_of_ne hNe] at hStale
      rcases hWay other hStale with hNotify | hIn | hPending | hFlush
      · exact Or.inl hNotify
      · exact Or.inr (Or.inl hIn)
      · exact Or.inr (Or.inr (Or.inl hPending))
      · right; right; right
        exact (List.mem_erase_of_ne hNe).mpr hFlush
    · exact hWay

theorem notifying_loop {label : SourceLabel} (hLoop : label.ofLoop) :
    (s.step label).notifying = s.notifying := by
  cases label with
  | mutate | notify => exact hLoop.elim
  | receive =>
    rcases receive_cases s with hSame | ⟨ns, rest, hFlushing, hChannel⟩
    · rw [hSame]
    · rw [step_receive hFlushing hChannel]
  | fire | enqueue =>
    simp only [step]
    split_ifs <;> rfl

/- The namespace was mutated and nothing leads to it. -/
def Lost (ns : Text) (s : StoreSource) : Prop := s.stale ns = true ∧ ¬ s.Awaited ns

theorem lost_loop (s : StoreSource) (label : SourceLabel) (hLost : s.Lost ns)
    (hLoop : label.ofLoop) : (s.step label).Lost ns := by
  have hStale := hLost.1
  rcases not_or.mp hLost.2 with ⟨hChannel, hBehind⟩
  rcases not_or.mp hBehind with ⟨hPending, hFlushing⟩
  cases label with
  | mutate | notify => exact hLoop.elim
  | receive =>
    rcases receive_cases s with hSame | ⟨other, rest, hIdle, hHead⟩
    · rw [hSame]
      exact hLost
    · rw [step_receive hIdle hHead]
      rw [hHead] at hChannel
      refine ⟨hStale, ?_⟩
      intro hAwaited
      rcases hAwaited with hIn | hIn | hIn
      · exact hChannel (List.mem_cons_of_mem other hIn)
      · rcases List.mem_insert_iff.mp hIn with hEq | hOld
        · exact hChannel (hEq ▸ List.mem_cons_self)
        · exact hPending hOld
      · exact hFlushing hIn
  | fire =>
    simp only [step]
    split_ifs
    · refine ⟨hStale, ?_⟩
      intro hAwaited
      rcases hAwaited with hIn | hIn | hIn
      · exact hChannel hIn
      · exact absurd hIn List.not_mem_nil
      · exact hPending hIn
    · exact hLost
  | enqueue other inventories =>
    simp only [step]
    split_ifs with hMem
    · have hNe : ns ≠ other := by
        intro hEq
        exact hFlushing (hEq ▸ hMem)
      refine ⟨?_, ?_⟩
      · exact (Function.update_of_ne hNe _ _).trans hStale
      · intro hAwaited
        rcases hAwaited with hIn | hIn | hIn
        · exact hChannel hIn
        · exact hPending hIn
        · exact hFlushing (List.mem_of_mem_erase hIn)
    · exact hLost

----
-- The Loop Drains
----

/- Each namespace moves on with every step that takes it. -/
def work (s : StoreSource) : Nat := 3 * s.channel.length + 2 * s.pending.length + s.flushing.length

/- A loop that has not drained has a step that moves on. -/
theorem exists_working_step (s : StoreSource) (hTimer : s.TimerSet) (hNot : ¬ s.Drained) :
    ∃ label, SourceLabel.ofLoop label ∧ (s.step label).TimerSet ∧ (s.step label).work < s.work := by
  cases hFlushing : s.flushing with
  | cons ns rest =>
    refine ⟨.enqueue ns [], trivial, timerSet_step s _ hTimer, ?_⟩
    simp [step, work, hFlushing]
  | nil =>
    cases hChannel : s.channel with
    | cons ns rest =>
      refine ⟨.receive, trivial, timerSet_step s _ hTimer, ?_⟩
      have hInsert : (s.pending.insert ns).length ≤ s.pending.length + 1 := by
        by_cases hMem : ns ∈ s.pending
        · rw [List.length_insert_of_mem hMem]
          omega
        · rw [List.length_insert_of_not_mem hMem]
      rw [step_receive hFlushing hChannel]
      simp only [work, hChannel, List.length_cons]
      omega
    | nil =>
      have hPending : s.pending ≠ [] := by
        intro hEmpty
        exact hNot ⟨hChannel, hEmpty, hFlushing⟩
      have hLength := List.length_pos_of_ne_nil hPending
      refine ⟨.fire, trivial, timerSet_step s _ hTimer, ?_⟩
      simp only [step, hFlushing, hTimer hPending, and_self, if_true, work, List.length_nil]
      omega

theorem exists_drain (hTimer : s.TimerSet) :
    ∃ labels, (∀ l ∈ labels, SourceLabel.ofLoop l) ∧ (Run.exec step s labels).Drained :=
  Run.exists_exec_of_measure work exists_working_step hTimer

theorem exec_loop {P : StoreSource → Prop}
    (hStep : ∀ s l, P s → SourceLabel.ofLoop l → P (s.step l)) {labels : List SourceLabel}
    (hStart : P s) (hLoop : ∀ l ∈ labels, SourceLabel.ofLoop l) : P (Run.exec step s labels) :=
  Run.exec_invariant hStep hStart (Run.along_of_forall fun l hMem _ => hLoop l hMem)

/- Draining enqueues what is on its way, and only that. -/
theorem settles_iff_onItsWay (hTimer : s.TimerSet) : s.Settles ↔ s.OnItsWay := by
  constructor
  · intro hSettles ns hStale
    by_contra hNot
    rw [not_or] at hNot
    rcases exists_drain hTimer with ⟨labels, hLoop, hDrained⟩
    have hLost : (Run.exec step s labels).Lost ns := exec_loop lost_loop ⟨hStale, hNot.2⟩ hLoop
    have hFresh := hSettles labels hLoop hDrained ns hNot.1
    exact Bool.false_ne_true (hFresh.symm.trans hLost.1)
  · intro hWay labels hLoop hDrained ns hNotify
    have hEnd : (Run.exec step s labels).OnItsWay := exec_loop onItsWay_loop hWay hLoop
    have hSame : (Run.exec step s labels).notifying = s.notifying :=
      exec_loop (P := fun t => t.notifying = s.notifying)
        (fun _ _ hSoFar hL => (notifying_loop hL).trans hSoFar)
        rfl hLoop
    rw [Bool.eq_false_iff]
    intro hStale
    rcases hDrained with ⟨hChannel, hPending, hFlushing⟩
    rcases hEnd ns hStale with hIn | hIn | hIn | hIn
    · exact hNotify (hSame ▸ hIn)
    · rw [hChannel] at hIn
      exact absurd hIn List.not_mem_nil
    · rw [hPending] at hIn
      exact absurd hIn List.not_mem_nil
    · rw [hFlushing] at hIn
      exact absurd hIn List.not_mem_nil

----
-- Requests
----

theorem requests_step (s : StoreSource) (label : SourceLabel) :
    s.requests <+: (s.step label).requests := by
  cases label with
  | mutate m => exact List.prefix_rfl
  | notify | fire =>
    simp only [step]
    split_ifs <;> exact List.prefix_rfl
  | receive =>
    rcases receive_cases s with hSame | ⟨ns, rest, hFlushing, hChannel⟩
    · rw [hSame]
    · rw [step_receive hFlushing hChannel]
  | enqueue ns inventories =>
    simp only [step]
    split_ifs
    · exact List.prefix_append _ _
    · exact List.prefix_rfl

theorem requests_exec (s : StoreSource) (labels : List SourceLabel) :
    s.requests <+: (Run.exec step s labels).requests := by
  induction labels generalizing s with
  | nil => exact List.prefix_rfl
  | cons label labels ih => exact (requests_step s label).trans (ih _)

/- Only the flush of its inventories makes a mutated namespace fresh. -/
theorem step_of_fresh (s : StoreSource) (label : SourceLabel) (hStale : s.stale ns = true)
    (hFresh : (s.step label).stale ns = false) : ∃ inventories, label = .enqueue ns inventories ∧
      (s.step label).requests = s.requests ++ inventories.map (fun inv => (ns, inv)) := by
  have hChanged : (s.step label).stale ns ≠ s.stale ns := by simp [hStale, hFresh]
  cases label with
  | mutate m =>
    simp only [step, Function.update_apply] at hFresh
    split_ifs at hFresh
    exact absurd (hStale.symm.trans hFresh) Bool.true_eq_false.mp
  | notify other | fire =>
    simp only [step] at hChanged
    split_ifs at hChanged <;> exact absurd rfl hChanged
  | receive =>
    rcases receive_cases s with hSame | ⟨other, rest, hFlushing, hChannel⟩
    · exact absurd (congrArg (·.stale ns) hSame) hChanged
    · rw [step_receive hFlushing hChannel] at hChanged
      exact absurd rfl hChanged
  | enqueue other inventories =>
    simp only [step] at hChanged ⊢
    split_ifs at hChanged ⊢
    · have hOther : ns = other := by
        by_contra hNe
        exact hChanged (Function.update_of_ne hNe _ _)
      exact ⟨inventories, hOther ▸ rfl, hOther ▸ rfl⟩
    · exact absurd rfl hChanged

/- Between a mutation and the time the namespace is fresh its inventories were requested. -/
theorem requested_of_fresh (labels : List SourceLabel) (hStale : s.stale ns = true)
    (hFresh : (Run.exec step s labels).stale ns = false) :
    ∃ before inventories after, labels = before ++ .enqueue ns inventories :: after ∧
      (Run.exec step s before).requests ++ inventories.map (fun inv => (ns, inv)) <+:
        (Run.exec step s labels).requests := by
  induction labels generalizing s with
  | nil => exact absurd (hStale.symm.trans hFresh) Bool.true_eq_false.mp
  | cons label labels ih =>
    rw [Run.exec_cons] at hFresh ⊢
    cases hNext : (s.step label).stale ns with
    | true =>
      obtain ⟨before, inventories, after, hSplit, hRequests⟩ := ih hNext hFresh
      exact ⟨label :: before, inventories, after, congrArg (label :: ·) hSplit, hRequests⟩
    | false =>
      obtain ⟨inventories, hLabel, hAdded⟩ := step_of_fresh s label hStale hNext
      refine ⟨[], inventories, labels, congrArg (· :: labels) hLabel, ?_⟩
      rw [Run.exec_nil, ← hAdded]
      exact requests_exec _ labels

----
-- No Lost Wakeup
----

theorem mem_send {channel : List Text} {other : Text} (hMem : other ∈ channel) :
    other ∈ send channel ns := by
  unfold send
  split_ifs
  · exact List.mem_append_left _ hMem
  · exact hMem

theorem onItsWay_mutate (hWay : s.OnItsWay) (m : Store.Mutation) :
    (s.step (.mutate m)).OnItsWay := by
  intro ns hStale
  by_cases hNs : ns = m.targetNamespace
  · left
    rw [hNs]
    exact List.mem_cons_self
  · have hBefore : s.stale ns = true := (Function.update_of_ne hNs _ _).symm.trans hStale
    rcases hWay ns hBefore with hNotify | hAwaited
    · exact Or.inl (List.mem_cons_of_mem _ hNotify)
    · exact Or.inr hAwaited

theorem onItsWay_notify_iff (hWay : s.OnItsWay) (ns : Text) :
    (s.step (.notify ns)).OnItsWay ↔ s.NotificationKept (.notify ns) := by
  simp only [step, NotificationKept]
  split_ifs with hMem
  · simp only [hMem, forall_const]
    constructor
    · intro hAfter
      by_cases hRoom : s.channel.length < namespaceChannelSize
      · exact Or.inl hRoom
      · right
        cases hStale : s.stale ns with
        | false => exact Or.inr (Or.inr rfl)
        | true =>
          have hNow := hAfter ns hStale
          simp only [send, hRoom, if_false] at hNow
          rcases hNow with hNotify | hAwaited
          · exact Or.inl hNotify
          · exact Or.inr (Or.inl hAwaited)
    · intro hKept other hStale
      by_cases hOther : other = ns
      · subst hOther
        rcases hKept with hRoom | hNotify | hAwaited | hFresh
        · right; left
          simp [send, hRoom]
        · exact Or.inl hNotify
        · right
          rcases hAwaited with hIn | hIn
          · exact Or.inl (mem_send hIn)
          · exact Or.inr hIn
        · exact absurd (hFresh.symm.trans hStale) Bool.false_ne_true
      · rcases hWay other hStale with hNotify | hIn | hIn
        · exact Or.inl ((List.mem_erase_of_ne hOther).mpr hNotify)
        · exact Or.inr (Or.inl (mem_send hIn))
        · exact Or.inr (Or.inr hIn)
  · exact iff_of_true hWay (fun hIn => absurd hIn hMem)

theorem onItsWay_step_iff (s : StoreSource) (label : SourceLabel) (hWay : s.OnItsWay) :
    (s.step label).OnItsWay ↔ s.NotificationKept label := by
  cases label with
  | mutate m => exact iff_of_true (onItsWay_mutate hWay m) trivial
  | notify ns => exact onItsWay_notify_iff hWay ns
  | receive | fire | enqueue => exact iff_of_true (onItsWay_loop s _ hWay trivial) trivial

/-
  From the subscription on, every namespace without a notification to come has had its inventories
  enqueued after its last mutation whenever the loop has drained, exactly when every notification is
  kept.
-/
theorem no_lost_wakeup_iff (store : Store) (labels : List SourceLabel) :
    Run.Along step (fun s label => (s.step label).Settles) (start store) labels ↔
      Run.Along step NotificationKept (start store) labels := by
  have hTimer : (start store).TimerSet := fun hPending => absurd rfl hPending
  have hWay : (start store).OnItsWay := fun _ hStale => absurd hStale Bool.false_ne_true
  apply Run.along_step_iff timerSet_step _ hTimer ((settles_iff_onItsWay hTimer).mpr hWay)
  intro s label hSet hSettles
  rw [settles_iff_onItsWay (timerSet_step s label hSet)]
  exact onItsWay_step_iff s label ((settles_iff_onItsWay hSet).mp hSettles)

/- A mutation and its notification. -/
def mutateAndNotify (ns : Text) : List SourceLabel :=
  [.mutate (.removeTarget ns "deployments"), .notify ns]

/-
  Eight mutations of one namespace fill the channel; a mutation of another one follows, and the loop
  drains.
-/
def crowdedRun : List SourceLabel :=
  (List.replicate 8 (mutateAndNotify "team-a")).flatten ++ mutateAndNotify "team-b" ++
    List.replicate 8 .receive ++ [.fire, .enqueue "team-a" [("inventory" : Text)]]

def afterCrowd : StoreSource := Run.exec step (start Store.empty) crowdedRun

/- The wakeup of the second namespace is lost. -/
theorem full_channel_loses_namespace : afterCrowd.notifying = [] ∧ afterCrowd.Drained ∧
      afterCrowd.requests = [("team-a".toList, "inventory".toList)] ∧
      afterCrowd.stale "team-b" = true ∧ ¬ afterCrowd.Settles := by
  have hStale : afterCrowd.stale "team-b" = true := by decide +kernel
  have hDrained : afterCrowd.Drained := by
    unfold Drained
    decide +kernel
  have hNone : afterCrowd.notifying = [] := by decide +kernel
  refine ⟨hNone, hDrained, by decide +kernel, hStale, ?_⟩
  intro hSettles
  have hFresh := hSettles.stale_eq_false hDrained
    (show "team-b".toList ∉ _ from hNone ▸ List.not_mem_nil)
  exact Bool.false_ne_true (hFresh.symm.trans hStale)

end StoreSource

end Controller
end Kollect
