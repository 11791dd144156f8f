import Kollect.Foundation.CircuitBreaker
import Kollect.Foundation.Run
import Kollect.Foundation.Text

/-
  Exports through the per-sink circuit breakers (`internal/sink/circuit_breaker.go` and the breaker
  key of `RunExportEnvelope`).

  A history is a list of events: an export asks its breaker for admission, and an admitted export
  reports its result later. Exports to one sink or to several may overlap. The breakers themselves
  are those of any library that does what is documented of it.

  Isolation between sinks is settled by `breaker_isolates_iff`.
-/

----
-- Sink Objects
----

namespace Kollect

namespace Sink

inductive SinkFamily where
  | snapshot
  | database
  | event
deriving DecidableEq

/-
  A sink object of the cluster. Its namespace is a Kubernetes name: not empty, and without a slash.
-/
structure SinkObject where
  family : SinkFamily
  namespace_ : Text
  name : Text
  namespace_ne_nil : namespace_ ≠ []
  namespace_noSlash : '/' ∉ namespace_
deriving DecidableEq

/- The resolved sink's own namespace, or the fallback. -/
def sinkNamespaceForResolved (resolvedNamespace fallback : Text) : Text :=
  if resolvedNamespace = [] then fallback
  else resolvedNamespace

/-
  The key `RunExportEnvelope` exports under, for a sink bound by an inventory of the namespace
  `fallback`.
-/
def exportBreakerKey (sink : SinkObject) (fallback : Text) : Text :=
  sinkNamespaceForResolved sink.namespace_ fallback ++ "/" ++ sink.name

/- The same key: a sink object has a namespace. -/
def breakerKey (sink : SinkObject) : Text := sink.namespace_ ++ "/" ++ sink.name

theorem exportBreakerKey_eq (sink : SinkObject) (fallback : Text) :
    exportBreakerKey sink fallback = breakerKey sink := by
  simp [exportBreakerKey, sinkNamespaceForResolved, breakerKey, sink.namespace_ne_nil]

variable {other : SinkObject}

/- The key holds the namespace and the name, and no more. -/
theorem breakerKey_eq_iff {sink : SinkObject} : breakerKey sink = breakerKey other ↔
      sink.namespace_ = other.namespace_ ∧ sink.name = other.name := by
  have hSlash : ("/" : String).toList = ['/'] := rfl
  unfold breakerKey
  rw [hSlash, List.append_assoc, List.append_assoc, List.singleton_append, List.singleton_append,
    Text.append_sep_inj sink.namespace_noSlash other.namespace_noSlash]

----
-- Settings
----

def second : Nat := 1000000000

def circuitBreakerInterval : Nat := 60 * second
def circuitBreakerTimeout : Nat := 30 * second
def circuitBreakerTripAt : Nat := 5

def breakerSettings : Breaker.Settings where
  maxRequests := 1
  interval := circuitBreakerInterval
  timeout := circuitBreakerTimeout
  readyToTrip counts := circuitBreakerTripAt ≤ counts.consecutiveFailures

theorem breakerSettings_trips {counts : Breaker.Counts} (hFive : counts.consecutiveFailures = 5) :
    breakerSettings.readyToTrip counts = true := by
  simp [breakerSettings, hFive, circuitBreakerTripAt]

/- What the backend returned for one export. -/
inductive ExportResult where
  | ok
  | failed (inventoryScoped : Bool)
deriving DecidableEq

/- An inventory-scoped failure is excluded. -/
def ExportResult.outcome : ExportResult → Breaker.Outcome
  | .ok => .success
  | .failed true => .excluded
  | .failed false => .failure

----
-- Histories
----

/- One call of `RunExportEnvelope`, for an inventory. -/
structure ExportCall where
  sink : SinkObject
  inventoryNamespace : Text
  id : Nat
deriving DecidableEq

def ExportCall.key (call : ExportCall) : Text := exportBreakerKey call.sink call.inventoryNamespace

@[simp] theorem ExportCall.key_eq (call : ExportCall) : call.key = breakerKey call.sink :=
  exportBreakerKey_eq call.sink call.inventoryNamespace

/- The two lock sections of `Execute`, with their times. -/
inductive ExportEvent where
  | begin_ (call : ExportCall) (now : Nat)
  | finish (call : ExportCall) (now : Nat) (result : ExportResult)
deriving DecidableEq

def ExportEvent.call : ExportEvent → ExportCall
  | .begin_ call _ => call
  | .finish call _ _ => call

def ExportEvent.sink (e : ExportEvent) : SinkObject := e.call.sink

/-
  `breakerRegistry`, over the breakers of a library, with the generation each running export was
  admitted into.
-/
structure BreakerRegistry (β : Type) where
  breakers : GoMap Text β
  inFlight : GoMap ExportCall Nat

section Library

variable {β : Type} (lib : Breaker.Library β)

def newBreaker (now : Nat) : β := lib.new breakerSettings now

namespace BreakerRegistry

def empty : BreakerRegistry β := ⟨∅, ∅⟩

/- The breaker of a key; a missing one starts now. -/
def breakerFor (s : BreakerRegistry β) (key : Text) (now : Nat) : β :=
  (s.breakers.lookup key).getD (newBreaker lib now)

def admits (s : BreakerRegistry β) (call : ExportCall)
    (now : Nat) : β × Except Breaker.Refusal Nat :=
  lib.beforeRequest breakerSettings (s.breakerFor lib call.key now) now

def step (s : BreakerRegistry β) (e : ExportEvent) : BreakerRegistry β :=
  match e with
  | .begin_ call now =>
    { breakers := s.breakers.insert call.key (s.admits lib call now).1
      inFlight :=
        match (s.admits lib call now).2 with
        | .ok generation => s.inFlight.insert call generation
        | .error _ => s.inFlight.erase call }
  | .finish call now result =>
    match s.inFlight.lookup call with
    | none => s
    | some generation =>
      { breakers :=
          s.breakers.insert call.key (lib.afterRequest breakerSettings
            (s.breakerFor lib call.key now) generation now result.outcome)
        inFlight := s.inFlight.erase call }

end BreakerRegistry

variable (sink : SinkObject)

/- What an export to `sink` shows: whether it reaches its backend. -/
def reaches (s : BreakerRegistry β) (e : ExportEvent) : Option (Nat × Bool) :=
  match e with
  | .begin_ call now =>
    if call.sink = sink then some (call.id, (s.admits lib call now).2.isOk)
    else none
  | .finish _ _ _ => none

/- The admissions of a sink's exports over a history. -/
def admissions (history : List ExportEvent) : List (Nat × Bool) :=
  Run.observe (BreakerRegistry.step lib) (reaches lib sink) BreakerRegistry.empty history

def about (e : ExportEvent) : Bool := e.sink = sink

/- All exports of the history go to the sink or to `others`. -/
def Over (others : Set SinkObject) (history : List ExportEvent) : Prop :=
  ∀ e ∈ history, e.sink = sink ∨ e.sink ∈ others

----
-- Isolation
----

/- The same event, up to the result of another sink. -/
def SameUpToOthers (e f : ExportEvent) : Prop :=
  e = f ∨ ∃ call now r r', call.sink ≠ sink ∧ e = .finish call now r ∧ f = .finish call now r'

/- Changing the results of exports to other sinks changes no admission of this one. -/
def ResultsOfOthersIrrelevant (others : Set SinkObject) : Prop :=
  ∀ h h', Over sink others h → Over sink others h' →
    List.Forall₂ (SameUpToOthers sink) h h' → admissions lib sink h = admissions lib sink h'

/- The admissions of the sink are those it would get if no other sink were exported to. -/
def AdmittedByOwnResults (others : Set SinkObject) : Prop :=
  ∀ h, Over sink others h → admissions lib sink h = admissions lib sink (h.filter (about sink))

/- What the exports to `sink` can see of the registry. -/
def SameView (s t : BreakerRegistry β) : Prop :=
  s.breakers.lookup (breakerKey sink) = t.breakers.lookup (breakerKey sink) ∧
    ∀ call, call.sink = sink → s.inFlight.lookup call = t.inFlight.lookup call

variable {lib}

section Frame

variable {sink : SinkObject} {s t : BreakerRegistry β}

theorem sameView_step_other {e : ExportEvent} (hSink : e.sink ≠ sink)
    (hKey : breakerKey e.sink ≠ breakerKey sink) (hView : SameView sink s t) :
    SameView sink (s.step lib e) t := by
  have hCall : ∀ call, call.sink = sink → call ≠ e.call := by
    rintro call hOwn rfl
    exact hSink hOwn
  cases e with
  | begin_ call now =>
    refine ⟨?_, ?_⟩
    · have hNe : breakerKey sink ≠ breakerKey call.sink := hKey.symm
      simp only [BreakerRegistry.step, ExportCall.key_eq, GoMap.lookup_insert_ite, if_neg hNe]
      exact hView.1
    · intro own hOwn
      rw [← hView.2 own hOwn]
      have hNe : own ≠ call := hCall own hOwn
      simp only [BreakerRegistry.step]
      cases (s.admits lib call now).2 with
      | ok generation => exact AList.lookup_insert_ne hNe
      | error refusal => exact AList.lookup_erase_ne hNe
  | finish call now result =>
    simp only [BreakerRegistry.step]
    cases s.inFlight.lookup call with
    | none => exact hView
    | some generation =>
      refine ⟨?_, ?_⟩
      · have hNe : breakerKey sink ≠ breakerKey call.sink := hKey.symm
        simp only [ExportCall.key_eq, GoMap.lookup_insert_ite, if_neg hNe]
        exact hView.1
      · intro own hOwn
        rw [← hView.2 own hOwn]
        exact AList.lookup_erase_ne (hCall own hOwn)

theorem breakerFor_eq_of_sameView (hView : SameView sink s t) (now : Nat) :
    s.breakerFor lib (breakerKey sink) now = t.breakerFor lib (breakerKey sink) now := by
  unfold BreakerRegistry.breakerFor
  rw [hView.1]

theorem admits_eq_of_sameView (hView : SameView sink s t) {call : ExportCall}
    (hOwn : call.sink = sink) (now : Nat) : s.admits lib call now = t.admits lib call now := by
  unfold BreakerRegistry.admits
  rw [ExportCall.key_eq, hOwn, breakerFor_eq_of_sameView hView]

theorem sameView_step_own {e : ExportEvent} (hOwn : e.sink = sink) (hView : SameView sink s t) :
    SameView sink (s.step lib e) (t.step lib e) := by
  cases e with
  | begin_ call now =>
    have hSink : call.sink = sink := hOwn
    have hAdmit : s.admits lib call now = t.admits lib call now :=
      admits_eq_of_sameView hView hSink now
    refine ⟨?_, ?_⟩
    · simp only [BreakerRegistry.step, hAdmit, ExportCall.key_eq, hSink, GoMap.lookup_insert_ite,
        if_true]
    · intro own hCall
      simp only [BreakerRegistry.step, hAdmit]
      cases (t.admits lib call now).2 with
      | ok generation => simp only [GoMap.lookup_insert_ite, hView.2 own hCall]
      | error refusal => simp only [GoMap.lookup_erase_ite, hView.2 own hCall]
  | finish call now result =>
    have hSink : call.sink = sink := hOwn
    simp only [BreakerRegistry.step, hView.2 call hSink, ExportCall.key_eq, hSink,
      breakerFor_eq_of_sameView hView now]
    cases t.inFlight.lookup call with
    | none => exact hView
    | some generation =>
      refine ⟨?_, ?_⟩
      · simp only [GoMap.lookup_insert_ite, if_true]
      · intro own hCall
        simp only [GoMap.lookup_erase_ite, hView.2 own hCall]

end Frame

/- No other sink of the set has the sink's breaker key. -/
def KeyUnshared (sink : SinkObject) (others : Set SinkObject) : Prop :=
  ∀ other ∈ others, other.namespace_ = sink.namespace_ → other.name = sink.name → other = sink

variable {others : Set SinkObject}

theorem unwinding_of_keyUnshared {sink : SinkObject} (hKey : KeyUnshared sink others) :
    Run.Unwinding (BreakerRegistry.step lib) (reaches lib sink)
      (fun e => e.sink = sink ∨ e.sink ∈ others) (about sink) (SameView sink) where
  silent s e hE := by
    have hSink : e.sink ≠ sink := by simpa [about] using hE
    cases e with
    | begin_ call now => exact if_neg hSink
    | finish call now result => rfl
  local_ s t e hAllowed hE hView := by
    have hSink : e.sink ≠ sink := by simpa [about] using hE
    have hOther := hAllowed.resolve_left hSink
    refine sameView_step_other hSink ?_ hView
    intro hEq
    rcases breakerKey_eq_iff.mp hEq with ⟨hNs, hName⟩
    exact hSink (hKey _ hOther hNs hName)
  step_ s t e hE hView := by
    have hSink : e.sink = sink := by simpa [about] using hE
    exact sameView_step_own hSink hView
  output s t e hE hView := by
    have hSink : e.sink = sink := by simpa [about] using hE
    cases e with
    | begin_ call now =>
      have hOwn : call.sink = sink := hSink
      simp only [reaches, hOwn, if_true, admits_eq_of_sameView hView hOwn now]
    | finish call now result => rfl

/- Without a shared key the sink sees its own exports only. -/
theorem admittedByOwnResults_of_keyUnshared {sink : SinkObject} (hKey : KeyUnshared sink others) :
    AdmittedByOwnResults lib sink others := by
  intro h hOver
  exact Run.observe_filter (unwinding_of_keyUnshared hKey) hOver ⟨rfl, fun _ _ => rfl⟩

/- Histories alike up to others have the same own events. -/
theorem filter_about_eq {sink : SinkObject} {h h' : List ExportEvent}
    (hSame : List.Forall₂ (SameUpToOthers sink) h h') :
    h.filter (about sink) = h'.filter (about sink) := by
  induction hSame with
  | nil => rfl
  | cons hHead _ ih =>
    rcases hHead with rfl | ⟨call, now, r, r', hNe, rfl, rfl⟩
    · simp only [List.filter_cons, ih]
    · have hNot : ∀ r, about sink (.finish call now r) = false := by
        intro r
        exact decide_eq_false hNe
      simp only [List.filter_cons, hNot, ih, Bool.false_eq_true, if_false]

----
-- Interference Through A Shared Key
----

/- `n` exports to the sink, one after the other, at time 0. -/
def exportsOf (sink : SinkObject) (result : ExportResult) : Nat → List ExportEvent
  | 0 => []
  | n + 1 => exportsOf sink result n ++ [.begin_ ⟨sink, [], n⟩ 0, .finish ⟨sink, [], n⟩ 0 result]

theorem breakerFor_export (s : BreakerRegistry β) (call : ExportCall) (result : ExportResult) :
    (Run.exec (BreakerRegistry.step lib) s [.begin_ call 0, .finish call 0 result]).breakerFor lib
          (breakerKey call.sink) 0 =
      lib.attempt breakerSettings 0 result.outcome (s.breakerFor lib (breakerKey call.sink) 0) := by
  simp only [Run.exec_cons, Run.exec_nil, Breaker.Library.attempt]
  have hAdmit : lib.beforeRequest breakerSettings (s.breakerFor lib (breakerKey call.sink) 0) 0 =
        s.admits lib call 0 := by
    rw [BreakerRegistry.admits, ExportCall.key_eq]
  rw [hAdmit]
  cases hVerdict : s.admits lib call 0 with
  | mk b verdict =>
    cases verdict with
    | error refusal => simp [BreakerRegistry.step, hVerdict, BreakerRegistry.breakerFor]
    | ok generation =>
      simp only [BreakerRegistry.step, hVerdict, ExportCall.key_eq, AList.lookup_insert]
      simp [BreakerRegistry.breakerFor]

/- Exports of one sink act on its breaker one by one. -/
theorem breakerFor_exportsOf (sink : SinkObject) (result : ExportResult) (n : Nat) :
    (Run.exec (BreakerRegistry.step lib) BreakerRegistry.empty
        (exportsOf sink result n)).breakerFor lib (breakerKey sink) 0 =
      (lib.attempt breakerSettings 0 result.outcome)^[n] (newBreaker lib 0) := by
  induction n with
  | zero => rfl
  | succ n ih =>
    rw [Function.iterate_succ_apply', ← ih, exportsOf, Run.exec_append]
    exact breakerFor_export _ ⟨sink, [], n⟩ result

theorem exportsOf_sink {sink : SinkObject} {result : ExportResult} {n : Nat}
    {e : ExportEvent} (hMem : e ∈ exportsOf sink result n) : e.sink = sink := by
  induction n with
  | zero => cases hMem
  | succ n ih =>
    rcases List.mem_append.mp hMem with hBefore | hLast
    · exact ih hBefore
    · simp only [List.mem_cons, List.not_mem_nil, or_false] at hLast
      rcases hLast with rfl | rfl <;> rfl

theorem exportsOf_sameUpToOthers {sink : SinkObject} (hNe : other ≠ sink) (r r' : ExportResult)
    (n : Nat) :
    List.Forall₂ (SameUpToOthers sink) (exportsOf other r n) (exportsOf other r' n) := by
  induction n with
  | zero => exact List.Forall₂.nil
  | succ n ih =>
    refine List.rel_append ih ?_
    refine List.Forall₂.cons (Or.inl rfl) ?_
    refine List.Forall₂.cons (Or.inr ?_) List.Forall₂.nil
    exact ⟨⟨other, [], n⟩, 0, r, r', hNe, rfl, rfl⟩

/- The events of another sink show nothing of this one. -/
theorem observe_append_other {sink : SinkObject} {h : List ExportEvent}
    (hOther : ∀ e ∈ h, e.sink ≠ sink) (s : BreakerRegistry β) (rest : List ExportEvent) :
    Run.observe (BreakerRegistry.step lib) (reaches lib sink) s (h ++ rest) =
      Run.observe (BreakerRegistry.step lib) (reaches lib sink)
        (Run.exec (BreakerRegistry.step lib) s h) rest := by
  induction h generalizing s with
  | nil => rfl
  | cons e h ih =>
    have hSilent : reaches lib sink s e = none := by
      have hNe := hOther e List.mem_cons_self
      cases e with
      | begin_ call now => exact if_neg hNe
      | finish call now result => rfl
    simp only [List.cons_append, Run.observe, hSilent,
      Option.toList_none, List.nil_append, Run.exec_cons]
    exact ih (fun e he => hOther e (List.mem_cons_of_mem _ he)) _

/- An export to `sink` after some of a sink with its key. -/
theorem admissions_after_exportsOf {sink : SinkObject} (hNe : other ≠ sink)
    (hKey : breakerKey other = breakerKey sink) (result : ExportResult) (n : Nat) :
    admissions lib sink (exportsOf other result n ++ [.begin_ ⟨sink, [], 0⟩ 0]) =
      [(0, lib.admitsAfter breakerSettings 0 result.outcome n)] := by
  unfold admissions
  rw [observe_append_other (fun e he => (exportsOf_sink he).symm ▸ hNe)]
  simp only [Run.observe, reaches, if_true, BreakerRegistry.admits, ExportCall.key_eq]
  rw [← hKey, breakerFor_exportsOf other]
  rfl

/- Five failures of a sink with the same key open the shared breaker; five successes do not. -/
theorem interference_of_shared_key {sink : SinkObject} (hDocumented : Breaker.Documented lib)
    (hOther : other ∈ others) (hNe : other ≠ sink) (hKey : breakerKey other = breakerKey sink) :
    ¬ ResultsOfOthersIrrelevant lib sink others := by
  intro hResults
  have hOver :
      ∀ result, Over sink others (exportsOf other result 5 ++ [.begin_ ⟨sink, [], 0⟩ 0]) := by
    intro result e hMem
    rcases List.mem_append.mp hMem with hBefore | hLast
    · exact Or.inr ((exportsOf_sink hBefore).symm ▸ hOther)
    · rw [List.mem_singleton.mp hLast]
      exact Or.inl rfl
  have hSame := hResults _ _ (hOver (.failed false)) (hOver .ok) (List.rel_append
        (exportsOf_sameUpToOthers hNe (.failed false) .ok 5)
        (List.Forall₂.cons (Or.inl rfl) List.Forall₂.nil))
  have hRefused := hDocumented.failures_open breakerSettings 0 5 (by decide)
    fun _ => breakerSettings_trips
  have hAdmitted := hDocumented.successes_admit breakerSettings 0 5
  rw [admissions_after_exportsOf hNe hKey, admissions_after_exportsOf hNe hKey] at hSame
  simp only [ExportResult.outcome, hRefused, hAdmitted] at hSame
  exact absurd hSame (by decide)

/-
  Exports to a sink depend only on the results of exports to that sink exactly when no other sink
  that is exported to has its namespace and its name.
-/
theorem breaker_isolates_iff (hDocumented : Breaker.Documented lib) (sink : SinkObject)
    (others : Set SinkObject) :
    AdmittedByOwnResults lib sink others ∧ ResultsOfOthersIrrelevant lib sink others ↔
      KeyUnshared sink others := by
  constructor
  · rintro ⟨_, hResults⟩ other hOther hNs hName
    by_contra hNe
    exact interference_of_shared_key hDocumented hOther hNe (breakerKey_eq_iff.mpr ⟨hNs, hName⟩)
      hResults
  · intro hKey
    have hOwn : AdmittedByOwnResults lib sink others := admittedByOwnResults_of_keyUnshared hKey
    refine ⟨hOwn, ?_⟩
    intro h h' hOver hOver' hSame
    rw [hOwn h hOver, hOwn h' hOver', filter_about_eq hSame]

end Library

def sinkCalled (name : Text) (family : SinkFamily) : SinkObject where
  family := family
  namespace_ := "team-a"
  name := name
  namespace_ne_nil := by decide
  namespace_noSlash := by decide

/- A sink of another name is no other sink's concern. -/
theorem other_name_is_isolated : AdmittedByOwnResults Breaker.counting (sinkCalled "main" .snapshot)
        {sinkCalled "audit" .database} ∧
      ResultsOfOthersIrrelevant Breaker.counting (sinkCalled "main" .snapshot)
        {sinkCalled "audit" .database} := by
  refine (breaker_isolates_iff Breaker.documented_counting _ _).mpr ?_
  rintro other hOther - hName
  rw [Set.mem_singleton_iff.mp hOther] at hName
  exact absurd hName (by decide)

/-
  Five failed exports to the database sink refuse an export to the snapshot sink of the same name.
-/
theorem failing_database_sink_blocks_snapshot_sink :
    ¬ ResultsOfOthersIrrelevant Breaker.counting (sinkCalled "main" .snapshot)
        {sinkCalled "main" .database} :=
  interference_of_shared_key Breaker.documented_counting (Set.mem_singleton _) (by decide) rfl

end Sink

end Kollect
