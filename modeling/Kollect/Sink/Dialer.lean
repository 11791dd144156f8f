import Kollect.Foundation.Netip
import Kollect.Collect.ScrubMemory

/-
  The guarded dialer of the sink clients (`sink/netguard`).

  A host is resolved once for a connection, the whole answer is checked, and the addresses of that
  answer are dialed. What the dialer asks of the network is kept as a list of events. The resolver
  answers each lookup as it likes.

  Key theorems include:
    * `guarded_iff`
-/

namespace Kollect
namespace Sink

open Netip

inductive DialError where
  | badAddress (address err : Text)
  | forbiddenHost (host : Text)
  | resolveFailed (host err : Text)
  | noAddresses (host : Text)
  | forbiddenAddress (host : Text) (address : Addr)
  | dialFailed (host : Text) (errs : List Text)
deriving DecidableEq

inductive NetEvent where
  | lookup (network host : Text)
  | dial (network address : Text)
deriving DecidableEq

def NetEvent.isLookup : NetEvent → Bool
  | .lookup _ _ => true
  | .dial _ _ => false

/- A dialer and the libraries it calls. `lookup` and `dial` get the number of the call. -/
structure Dialer where
  lowering : Collect.Lowering
  splitHostPort : Text → Except Text (Text × Text)
  parseAddr : Text → Option Addr
  text : Addr → Text
  lookup : Nat → Text → Text → Except Text (List Addr)
  dial : Nat → Text → Text → Except Text Unit
  allowPrivate : Bool
  allowPrivateSinks : Bool

----
-- Addresses
----

/- `fd00:ec2::254` -/
def ipv6MetadataAddr : Addr := .v6 0xfd000ec2000000000000000000000254 []

/- `100.64.0.0/10` and `198.18.0.0/15` -/
def unroutable : List Network := [.v4 0x64400000 10, .v4 0xc6120000 15]

/- The address that is refused, unmapped. -/
def validateAddress (address : Addr) (allowPrivate : Bool) : Except Addr Unit :=
  let address := address.unmap
  if !address.isValid || address.isUnspecified || address.isLoopback ||
      address.isLinkLocalUnicast || address.isLinkLocalMulticast || address.isMulticast ||
      address.withZone [] = ipv6MetadataAddr then
    .error address
  else if address.isPrivate && !allowPrivate then .error address
  else if address.is4 && unroutable.any fun net => net.contains address then .error address
  else .ok ()

/- The addresses no sink may be at, whatever their zone. -/
def Forbidden (allowPrivate : Bool) (address : Addr) : Prop :=
  let address := address.unmap.withZone []
  address.isLoopback ∨ address.isLinkLocalUnicast ∨ address.isLinkLocalMulticast ∨
    address.isUnspecified ∨ address.isMulticast ∨
    (∃ net ∈ unroutable, net.contains address) ∨ address = ipv6MetadataAddr ∨
    (address.isPrivate ∧ allowPrivate = false)

/- The unspecified address in a zone. -/
def ZonedUnspecified (address : Addr) : Prop := ∃ zone ≠ [], address = .v6 0#128 zone

theorem unspecified_withZone {a : Addr} (hZone : ¬ ZonedUnspecified a) :
    (a.unmap.withZone []).isUnspecified = a.unmap.isUnspecified := by
  cases a with
  | v6 bits zone =>
    rw [Addr.unmap]
    split_ifs with hMapped
    · rfl
    · have hNil : bits = 0#128 → zone = [] := by
        intro hBits
        by_contra hNe
        exact hZone ⟨zone, hNe, by rw [hBits]⟩
      simpa [Addr.withZone, Addr.isUnspecified] using hNil
  | _ => rfl

/- Only the zoned `::` of the forbidden addresses gets through. -/
theorem validateAddress_eq_ok {a : Addr} {allow : Bool} :
    validateAddress a allow = .ok () ↔ a ≠ .zero ∧ (¬ Forbidden allow a ∨ ZonedUnspecified a) := by
  by_cases hZone : ZonedUnspecified a
  · rcases hZone with ⟨zone, hNe, rfl⟩
    refine iff_of_true ?_ ⟨by simp, .inr ⟨zone, hNe, rfl⟩⟩
    have hPlain : (Addr.v6 0#128 zone).isUnspecified = false := by
      simpa [Addr.isUnspecified] using hNe
    have hUnmap : (Addr.v6 0#128 zone).unmap = .v6 0#128 zone := rfl
    unfold validateAddress
    dsimp only
    rw [hUnmap, hPlain]
    rfl
  · have hUnspecified := unspecified_withZone hZone
    have hZero : a.unmap = .zero ↔ a = .zero := by
      cases a with
      | v6 bits zone => simp only [Addr.unmap]; split_ifs <;> simp
      | _ => rfl
    have hNets : (∃ net ∈ unroutable, net.contains (a.unmap.withZone []) = true) ↔
        (a.unmap.is4 && unroutable.any fun net => net.contains a.unmap) = true := by
      cases a.unmap <;> simp [unroutable, Network.contains, Addr.withZone, Addr.is4]
    unfold validateAddress Forbidden Addr.isLoopback Addr.isLinkLocalUnicast
      Addr.isLinkLocalMulticast Addr.isMulticast Addr.isPrivate
    dsimp only
    rw [or_iff_left hZone, hUnspecified, hNets, ne_eq, ← hZero]
    simp only [Addr.ofBits_withZone]
    split_ifs with hFirst hPrivate hNet
    · simp only [Addr.isValid, Bool.or_eq_true, Bool.not_eq_true', decide_eq_true_eq,
        decide_eq_false_iff_not, not_not] at hFirst
      exact iff_of_false (by simp) (by tauto)
    · simp_all
    · simp_all
    · simp_all [Addr.isValid]

----
-- Dialing
----

def joinHostPort (host port : Text) : Text :=
  if ':' ∈ host then '[' :: host ++ (("]:" : Text) ++ port) else host ++ ':' :: port

def networkForLookup (network : Text) : Text :=
  if network = "tcp4" ∨ network = "udp4" then "ip4"
  else if network = "tcp6" ∨ network = "udp6" then "ip6"
  else "ip"

def localhostNames : List Text := ["localhost", "localhost.localdomain"]

def metadataNames : List Text :=
  ["metadata", "metadata.google.internal", "instance-data", "instance-data.ec2.internal"]

/- One of the names, each rune in lower or upper case. -/
def AnyCase (name : Text) (names : List Text) : Prop :=
  ∃ plain ∈ names, List.Forall₂ (fun c x => c ∈ [x, x.toUpper]) name plain

namespace Dialer

variable (d : Dialer)

def normalizeHostname (host : Text) : Text :=
  Text.trimFunc (fun c => c = '.') ((Text.trimSpace host).map d.lowering.toLower)

def isLocalhostHostname (host : Text) : Bool :=
  d.normalizeHostname host ∈ localhostNames ||
    (".localhost" : Text).isSuffixOf (d.normalizeHostname host)

def isMetadataHostname (host : Text) : Bool := d.normalizeHostname host ∈ metadataNames

/- `localhost` is let through for the integration tests only. -/
def refusesHost (host : Text) : Bool :=
  d.isMetadataHostname host || d.isLocalhostHostname host && !d.allowPrivate

/- The host and the port, without the brackets of an address. -/
def endpoint (address : Text) : Except DialError (Text × Text) :=
  match d.splitHostPort address with
  | .error err => .error (.badAddress address err)
  | .ok (host, port) => .ok (Text.trimEnd (Text.trimStart host ['[']) [']'], port)

def resolve (network host : Text) : List NetEvent × Except DialError (List Addr) :=
  match d.parseAddr host with
  | some literal => ([], .ok [literal.unmap])
  | none =>
    ([.lookup (networkForLookup network) host],
      match d.lookup 0 (networkForLookup network) host with
      | .error err => .error (.resolveFailed host err)
      | .ok [] => .error (.noAddresses host)
      | .ok addresses => .ok addresses)

def validate (host : Text) (address : Addr) : Except DialError Unit :=
  if d.allowPrivate then .ok ()
  else (validateAddress address d.allowPrivateSinks).mapError (.forbiddenAddress host)

/- One address after the other, until one is connected. -/
def dialEach (network port : Text) : Nat → List Addr → List NetEvent × Except (List Text) Unit
  | _, [] => ([], .error [])
  | n, a :: rest =>
    let target := joinHostPort (d.text a) port
    match d.dial n network target with
    | .ok () => ([.dial network target], .ok ())
    | .error err =>
      let later := dialEach network port (n + 1) rest
      (.dial network target :: later.1, later.2.mapError (err :: ·))

/- `Dialer.Resolve`, and the addresses it returns are dialed. -/
def dialContext (network address : Text) : List NetEvent × Except DialError Unit :=
  match d.endpoint address with
  | .error err => ([], .error err)
  | .ok (host, port) =>
    if d.refusesHost host then ([], .error (.forbiddenHost host))
    else
      match d.resolve network host with
      | (events, .error err) => (events, .error err)
      | (events, .ok addresses) =>
        match Fallible.checkAll (d.validate host) addresses with
        | .error err => (events, .error err)
        | .ok () =>
          let dialed := d.dialEach network port 0 addresses
          (events ++ dialed.1, dialed.2.mapError (.dialFailed host))

----
-- What Is Dialed
----

/-
  There is one lookup at most. Only addresses of its answer are dialed, and none if one of them is
  forbidden. Nothing is asked about the refused names, in any case or dots, nor about a name below
  `localhost`.
-/
structure Guarded (network host port : Text) (events : List NetEvent) : Prop where
  lookups : events.countP NetEvent.isLookup ≤ 1
  dials : ∀ network' target, .dial network' target ∈ events →
    ∃ addresses, (d.resolve network host).2 = .ok addresses ∧
      (∃ a ∈ addresses, target = joinHostPort (d.text a) port) ∧
      ∀ a ∈ addresses, ¬ Forbidden d.allowPrivateSinks a
  hostnames : ∀ front name back, (∀ c ∈ front ++ back, c = '.') →
    AnyCase name (localhostNames ++ metadataNames) → host = front ++ name ++ back → events = []
  subdomains : ∀ front name back, (∀ c ∈ back, c = '.') → AnyCase name [".localhost"] →
    host = front ++ name ++ back → events = []

variable {d : Dialer}

theorem mem_dialEach {network port : Text} {n : Nat} {addresses : List Addr} {event : NetEvent}
    (hEvent : event ∈ (d.dialEach network port n addresses).1) :
    ∃ a ∈ addresses, event = .dial network (joinHostPort (d.text a) port) := by
  induction addresses generalizing n with
  | nil => cases hEvent
  | cons a rest ih =>
    rw [dialEach] at hEvent
    split at hEvent
    · exact ⟨a, List.mem_cons_self, List.mem_singleton.mp hEvent⟩
    · rcases List.mem_cons.mp hEvent with hFirst | hLater
      · exact ⟨a, List.mem_cons_self, hFirst⟩
      · rcases ih hLater with ⟨b, hB, hEq⟩
        exact ⟨b, List.mem_cons_of_mem a hB, hEq⟩

theorem dialEach_first (network port : Text) (n : Nat) (a : Addr) (rest : List Addr) :
    .dial network (joinHostPort (d.text a) port) ∈ (d.dialEach network port n (a :: rest)).1 := by
  rw [dialEach]
  split <;> exact List.mem_cons_self

/- Of the runes of the names a text in any case is lowered. -/
theorem map_lower {s plain : Text} (hCase : List.Forall₂ (fun c x => c ∈ [x, x.toUpper]) s plain)
    (hPlain : ∀ x ∈ plain, x ∈ (localhostNames ++ metadataNames).flatten) :
    s.map d.lowering.toLower = plain ∧ ∀ c ∈ s, Text.isSpace c = false := by
  have hAll : ((localhostNames ++ metadataNames).flatten.all fun x => [x, x.toUpper].all fun c =>
      c.toNat < 128 && !Text.isSpace c && c.toLower == x) = true := by
    decide +kernel
  have hRunes : ∀ x ∈ (localhostNames ++ metadataNames).flatten, ∀ c ∈ [x, x.toUpper],
      c.toNat < 128 ∧ Text.isSpace c = false ∧ c.toLower = x := by
    intro x hX c hC
    simpa [and_assoc] using List.all_eq_true.mp (List.all_eq_true.mp hAll x hX) c hC
  induction hCase with
  | nil => exact ⟨rfl, by simp⟩
  | @cons c x s plain hC _ ih =>
    rw [List.forall_mem_cons] at hPlain
    rcases hRunes x hPlain.1 c hC with ⟨hAscii, hSpace, hLower⟩
    rw [List.map_cons, List.forall_mem_cons, d.lowering.ascii c hAscii, hLower, (ih hPlain.2).1]
    exact ⟨rfl, hSpace, (ih hPlain.2).2⟩

theorem map_lower_dotted {front name back plain : Text} (hDots : ∀ c ∈ front ++ back, c = '.')
    (hCase : List.Forall₂ (fun c x => c ∈ [x, x.toUpper]) name plain)
    (hPlain : plain ⊆ (localhostNames ++ metadataNames).flatten) :
    (front ++ name ++ back).map d.lowering.toLower = front ++ plain ++ back ∧
      ∀ c ∈ front ++ name ++ back, Text.isSpace c = false := by
  rw [List.forall_mem_append] at hDots
  have hSame : ∀ dots : Text, List.Forall₂ (fun c x => c ∈ [x, x.toUpper]) dots dots :=
    fun dots => List.forall₂_same.mpr fun c _ => List.mem_cons_self
  have hDot : '.' ∈ (localhostNames ++ metadataNames).flatten := by decide
  refine map_lower (List.rel_append (List.rel_append (hSame front) hCase) (hSame back)) ?_
  simp only [List.forall_mem_append]
  refine ⟨⟨fun c hC => ?_, hPlain⟩, fun c hC => ?_⟩
  · rwa [hDots.1 c hC]
  · rwa [hDots.2 c hC]

/- The names are refused in any case and with any dots. -/
theorem refusesHost_of_name {front name back : Text} (hDots : ∀ c ∈ front ++ back, c = '.')
    (hName : AnyCase name (localhostNames ++ metadataNames)) (hOff : d.allowPrivate = false) :
    d.refusesHost (front ++ name ++ back) = true := by
  rcases hName with ⟨plain, hPlain, hCase⟩
  have hLower := @map_lower_dotted d _ _ _ _ hDots hCase
    (fun c hC => List.mem_flatten.mpr ⟨plain, hPlain, hC⟩)
  rw [List.forall_mem_append] at hDots
  have hEnds : ∀ name ∈ localhostNames ++ metadataNames,
      name.head?.any (fun c => !decide (c = '.')) = true ∧
        name.getLast?.any (fun c => !decide (c = '.')) = true := by
    decide
  have hNormal : d.normalizeHostname (front ++ name ++ back) = plain := by
    rw [normalizeHostname, Text.trimSpace, Text.trimFunc_eq_self hLower.2, hLower.1]
    exact Text.trimFunc_surround (fun c hC => decide_eq_true (hDots.1 c hC))
      (fun c hC => decide_eq_true (hDots.2 c hC)) (hEnds plain hPlain).1 (hEnds plain hPlain).2
  generalize front ++ name ++ back = host at hNormal
  rcases List.mem_append.mp hPlain with hLocal | hMeta
  · simp [refusesHost, isLocalhostHostname, hNormal, hLocal, hOff]
  · simp [refusesHost, isMetadataHostname, hNormal, hMeta]

theorem refusesHost_of_subdomain {front name back : Text} (hDots : ∀ c ∈ back, c = '.')
    (hName : AnyCase name [".localhost"]) (hOff : d.allowPrivate = false) :
    d.refusesHost (front ++ name ++ back) = true := by
  rcases hName with ⟨plain, hPlain, hCase⟩
  rw [List.mem_singleton.mp hPlain] at hCase
  have hLower := @map_lower_dotted d [] name back _ hDots hCase (by decide)
  rw [List.nil_append] at hLower
  have hSome : ∃ c s, name ++ back = c :: s := by
    cases hCase
    exact ⟨_, _, rfl⟩
  have hSpace : Text.trimSpace (front ++ name ++ back) =
      front.dropWhile Text.isSpace ++ (name ++ back) := by
    have hTrim := @Text.trimFunc_append (name ++ back) Text.isSpace [] front (List.forall_mem_nil _)
    rcases hSome with ⟨c, s, hEq⟩
    have hEnd := List.getLast?_eq_some_getLast (hEq ▸ List.cons_ne_nil c s)
    rw [List.append_nil, ← List.append_assoc] at hTrim
    refine hTrim ?_ ?_
    · simp [hEq, hLower.2 c (by simp [hEq])]
    · simp [hEnd, hLower.2 _ (List.getLast_mem _)]
  have hNormal : d.normalizeHostname (front ++ name ++ back) =
      (((front.dropWhile Text.isSpace).map d.lowering.toLower ++ ['.']).dropWhile
        fun c => c = '.') ++ "localhost".toList := by
    rw [normalizeHostname, hSpace, List.map_append, hLower.1]
    have hTrim := @Text.trimFunc_append "localhost".toList (fun c => c = '.') back
      ((front.dropWhile Text.isSpace).map d.lowering.toLower ++ ['.'])
      (fun c hC => decide_eq_true (hDots c hC)) rfl rfl
    rw [← hTrim]
    simp
  -- nothing but dots stands before the name, or the name is below it
  generalize front ++ name ++ back = host at hNormal
  rw [List.dropWhile_append] at hNormal
  split_ifs at hNormal
  · simp [refusesHost, isLocalhostHostname, hNormal, localhostNames, hOff]
  · have hBelow : (".localhost" : Text).isSuffixOf (d.normalizeHostname host) = true := by
      rw [List.isSuffixOf_iff_suffix, hNormal, List.append_assoc]
      exact List.suffix_append _ _
    rw [refusesHost, isLocalhostHostname, hBelow, hOff]
    simp

theorem resolve_events (network host : Text) :
    (d.resolve network host).1.countP NetEvent.isLookup ≤ 1 ∧
      ∀ network' target, .dial network' target ∉ (d.resolve network host).1 := by
  unfold resolve
  split <;> simp [NetEvent.isLookup]

theorem guarded_iff {network address host port : Text}
    (hEndpoint : d.endpoint address = .ok (host, port)) (hOff : d.allowPrivate = false) :
    d.Guarded network host port (d.dialContext network address).1 ↔
      ∀ addresses, d.refusesHost host = false → (d.resolve network host).2 = .ok addresses →
        (∀ a ∈ addresses, validateAddress a d.allowPrivateSinks = .ok ()) →
        ∀ a ∈ addresses, ¬ ZonedUnspecified a := by
  unfold dialContext
  rw [hEndpoint]
  dsimp only
  by_cases hHost : d.refusesHost host = true
  · rw [if_pos hHost]
    refine iff_of_true ⟨by simp, nofun, fun _ _ _ _ _ _ => rfl, fun _ _ _ _ _ _ => rfl⟩
      fun _ hNot => ?_
    rw [hHost] at hNot
    cases hNot
  · have hNames : ∀ (events : List NetEvent) front name back, (∀ c ∈ front ++ back, c = '.') →
        AnyCase name (localhostNames ++ metadataNames) → host = front ++ name ++ back →
        events = [] := by
      rintro _ front name back hDots hName rfl
      exact absurd (refusesHost_of_name hDots hName hOff) hHost
    have hBelow : ∀ (events : List NetEvent) front name back, (∀ c ∈ back, c = '.') →
        AnyCase name [".localhost"] → host = front ++ name ++ back → events = [] := by
      rintro _ front name back hDots hName rfl
      exact absurd (refusesHost_of_subdomain hDots hName hOff) hHost
    have hValid : ∀ addresses, Fallible.checkAll (d.validate host) addresses = .ok () ↔
        ∀ a ∈ addresses, validateAddress a d.allowPrivateSinks = .ok () := by
      intro addresses
      simp [Fallible.checkAll_eq_ok, validate, hOff, Fallible.mapError_eq_ok]
    have hAsked := @resolve_events d network host
    -- without an answer that passes there are no dials
    have hQuiet : d.Guarded network host port (d.resolve network host).1 :=
      ⟨hAsked.1, fun _ _ hDial => absurd hDial (hAsked.2 _ _), hNames _, hBelow _⟩
    rw [if_neg hHost]
    rcases hResolve : d.resolve network host with ⟨events, err | addresses⟩
    · rw [hResolve] at hQuiet
      exact iff_of_true hQuiet nofun
    · rw [hResolve] at hAsked hQuiet
      dsimp only
      cases hCheck : Fallible.checkAll (d.validate host) addresses with
      | error err =>
        refine iff_of_true hQuiet ?_
        intro found _ hOk hAll
        cases hOk
        rw [← hValid, hCheck] at hAll
        cases hAll
      | ok =>
        have hAll := (hValid addresses).mp hCheck
        constructor
        · intro hGuarded found _ hOk _ a hA hZoned
          cases hOk
          cases addresses with
          | nil => cases hA
          | cons b rest =>
            have hDial := List.mem_append_right events (@dialEach_first d network port 0 b rest)
            rcases hGuarded.dials _ _ hDial with ⟨answer, hAnswer, -, hNone⟩
            rw [hResolve] at hAnswer
            cases hAnswer
            rcases hZoned with ⟨zone, -, rfl⟩
            exact hNone _ hA (.inr (.inr (.inr (.inl rfl))))
        · intro hPlain
          refine ⟨?_, ?_, hNames _, hBelow _⟩
          · have hNone : (d.dialEach network port 0 addresses).1.countP NetEvent.isLookup = 0 := by
              refine List.countP_eq_zero.mpr fun event hEvent => ?_
              rcases mem_dialEach hEvent with ⟨a, -, rfl⟩
              exact Bool.false_ne_true
            rw [List.countP_append, hNone]
            exact hAsked.1
          · intro network' target hDial
            rcases List.mem_append.mp hDial with hDial | hDial
            · exact absurd hDial (hAsked.2 _ _)
            · rcases mem_dialEach hDial with ⟨a, hA, hEq⟩
              cases hEq
              refine ⟨addresses, by rw [hResolve], ⟨a, hA, rfl⟩, fun b hB => ?_⟩
              have hNotZoned := hPlain addresses (Bool.eq_false_iff.mpr hHost) rfl hAll b hB
              exact (validateAddress_eq_ok.mp (hAll b hB)).2.resolve_right hNotZoned

end Dialer

----
-- The Opt-In
----

theorem validateAddress_optIn (a : Addr) : validateAddress a true = validateAddress a false ∨
      validateAddress a false = .error a.unmap ∧ a.unmap.isPrivate = true := by
  unfold validateAddress
  cases hPrivate : a.unmap.isPrivate with
  | false => simp [hPrivate]
  | true => exact .inr ⟨by simp [hPrivate], rfl⟩

namespace Dialer

/- The dialer of a sink with or without the opt-in. -/
def withOptIn (d : Dialer) (allow : Bool) : Dialer := { d with allowPrivateSinks := allow }

theorem validate_withOptIn (d : Dialer) (host : Text) (a : Addr) :
    (d.withOptIn true).validate host a = (d.withOptIn false).validate host a ∨
      (d.withOptIn false).validate host a = .error (.forbiddenAddress host a.unmap) ∧
        a.unmap.isPrivate = true := by
  unfold validate withOptIn
  split_ifs
  · exact .inl rfl
  · rcases validateAddress_optIn a with hSame | ⟨hRefused, hPrivate⟩
    · exact .inl (by rw [hSame])
    · exact .inr ⟨by rw [hRefused]; rfl, hPrivate⟩

theorem checkAll_withOptIn (d : Dialer) (host : Text) (addresses : List Addr) :
    Fallible.checkAll ((d.withOptIn true).validate host) addresses =
        Fallible.checkAll ((d.withOptIn false).validate host) addresses ∨
      ∃ a, Fallible.checkAll ((d.withOptIn false).validate host) addresses =
        .error (.forbiddenAddress host a) ∧ a.isPrivate = true := by
  induction addresses with
  | nil => exact .inl rfl
  | cons a rest ih =>
    unfold Fallible.checkAll
    rcases d.validate_withOptIn host a with hSame | ⟨hRefused, hPrivate⟩
    · rw [hSame]
      cases (d.withOptIn false).validate host a with
      | error err => exact .inl rfl
      | ok _ => exact ih
    · exact .inr ⟨a.unmap, by rw [hRefused]; rfl, hPrivate⟩

/- The opt-in changes nothing about a connection that was not refused for a private address. -/
theorem optIn_opens_private_only (d : Dialer) (network address : Text) :
    (d.withOptIn true).dialContext network address =
        (d.withOptIn false).dialContext network address ∨
      ∃ host a, ((d.withOptIn false).dialContext network address).2 =
        .error (.forbiddenAddress host a) ∧ a.isPrivate = true := by
  have hEach : ∀ port n addresses, (d.withOptIn true).dialEach network port n addresses =
      (d.withOptIn false).dialEach network port n addresses := by
    intro port n addresses
    induction addresses generalizing n with
    | nil => rfl
    | cons a rest ih =>
      unfold dialEach
      rw [ih]
      rfl
  have hEndpoint : ∀ allow, (d.withOptIn allow).endpoint = d.endpoint := fun _ => rfl
  have hRefuses : ∀ allow, (d.withOptIn allow).refusesHost = d.refusesHost := fun _ => rfl
  have hResolve : ∀ allow, (d.withOptIn allow).resolve = d.resolve := fun _ => rfl
  unfold dialContext
  simp only [hEach, hEndpoint, hRefuses, hResolve]
  cases d.endpoint address with
  | error err => exact .inl rfl
  | ok endpoint =>
    rcases endpoint with ⟨host, port⟩
    dsimp only
    split_ifs
    · exact .inl rfl
    · rcases d.resolve network host with ⟨events, _ | addresses⟩
      · exact .inl rfl
      · dsimp only
        rcases d.checkAll_withOptIn host addresses with hSame | ⟨a, hRefused, hPrivate⟩
        · exact .inl (by rw [hSame])
        · exact .inr ⟨host, a, by rw [hRefused], hPrivate⟩

end Dialer

----
-- An Answer In A Zone
----

/- The text of an address; of the long ones only `::` is shortened. -/
def addrText : Addr → Text
  | .zero => "invalid IP"
  | .v4 bits => List.intercalate ['.']
      ((List.range 4).map fun i => Nat.toDigits 10 (bits.toNat / 256 ^ (3 - i) % 256))
  | .v6 bits zone => (if bits = 0 then "::".toList else List.intercalate [':']
        ((List.range 8).map fun i => Nat.toDigits 16 (bits.toNat / 65536 ^ (7 - i) % 65536))) ++
      (if zone = [] then [] else '%' :: zone)

/- A dialer whose resolver gives one answer, and which connects. -/
def answeringDialer (answer : List Addr) : Dialer where
  lowering := Collect.asciiLowering
  splitHostPort _ := .ok ("db", "5432")
  parseAddr _ := none
  text := addrText
  lookup _ _ _ := .ok answer
  dial _ _ _ := .ok ()
  allowPrivate := false
  allowPrivateSinks := false

/- A private address stops the public one beside it. -/
theorem mixed_answer_is_guarded :
    (answeringDialer [.v4 0x08080808, .v4 0x0a000001]).Guarded "tcp" "db" "5432"
      ((answeringDialer [.v4 0x08080808, .v4 0x0a000001]).dialContext "tcp" "db:5432").1 := by
  refine (Dialer.guarded_iff rfl rfl).mpr ?_
  intro addresses _ hOk hAll
  cases hOk
  have hPrivate := hAll (.v4 0x0a000001) (by simp)
  cases hPrivate

/- The unspecified address is dialed in a zone. -/
theorem zoned_unspecified_is_dialed :
    Forbidden false (.v6 0 "eth0") ∧ .dial "tcp" "[::%eth0]:5432" ∈
        ((answeringDialer [.v6 0 "eth0"]).dialContext "tcp" "db:5432").1 :=
  ⟨.inr (.inr (.inr (.inl rfl))), by decide +kernel⟩

end Sink
end Kollect
